import Whittle.Proofs.Grammar.Locality
import Whittle.Proofs.Grammar.Parameters
import Whittle.Proofs.Insertion.Decoding

/-!
# The planted lines among the statements of a body

Lines that are put behind a row change no token of a program if a scan of it stands between tokens
at the end of the row (`lexemes_insertLines`). What a parser says of a block divides the tokens
between its braces among its children (`Layout.Of`). If no child goes on behind the row of the
opening brace, a scan stands at its end, and the planted lines stand between children of the block
of `main` and are read as a declaration and two assignments (`plantWith_between`).

Only the rows of the braces are looked at, not the children: lines may be planted in a comment, in a
statement, and before the brace of a body that starts with another word (`plant_misplaced`).
-/

namespace Whittle.Insertion

open Text Grammar

/-! ## Rows at whose end a scan stands -/

section

variable {language : Language} {p q : ScanPlace} {cs rest : List Char} {ts : List Token}

/-- The places to which a scan comes, with the rest of the text at each. -/
def stops (language : Language) : Nat → ScanPlace → List Char → List (ScanPlace × List Char)
  | 0, _, _ => []
  | _ + 1, p, [] => [(p, [])]
  | fuel + 1, p, c :: cs =>
    (p, c :: cs) :: stops language fuel (stepPlace language p c cs) (stepRest language p c cs)

/-- Whether a line ends at the front of a text; it may be joined with the next. -/
def endsLine (cs : List Char) : Bool := lineJoints.any fun joint => (joint ++ ['\n']).isPrefixOf cs

/-- Neither a token nor a comment nor a directive goes on behind the end of a row. -/
def StandsAt (language : Language) (program : String) (row : Nat) : Prop :=
  ∃ s ∈ stops language (program.toList.length + 1) startPlace program.toList,
    s.1.row = row ∧ endsLine s.2 = true

instance (language : Language) (program : String) (row : Nat) :
    Decidable (StandsAt language program row) :=
  inferInstanceAs (Decidable (∃ s ∈ _, _ ∧ _))

theorem scans_of_mem_stops {fuel : Nat} {s : ScanPlace × List Char}
    (h : s ∈ stops language fuel p cs) : ∃ ts, Scans language p cs ts s.1 s.2 := by
  induction fuel generalizing p cs with
  | zero => cases h
  | succ fuel ih =>
    cases cs with
    | nil =>
      rw [List.mem_singleton.mp h]
      exact ⟨[], .rest p []⟩
    | cons c cs =>
      rcases List.mem_cons.mp h with rfl | h
      · exact ⟨[], .rest p (c :: cs)⟩
      · obtain ⟨ts, hscan⟩ := ih h
        exact ⟨_, .step hscan⟩

theorem endsLine_iff :
    endsLine cs = true ↔ ∃ joint ∈ lineJoints, ∃ rest, cs = joint ++ '\n' :: rest := by
  simp only [endsLine, List.any_eq_true, List.isPrefixOf_iff_prefix]
  refine exists_congr fun joint => and_congr_right fun _ => exists_congr fun rest => ?_
  rw [List.append_assoc, List.singleton_append, eq_comm]

/-- The walk to the end of the row. -/
theorem StandsAt.walk {program : String} {row : Nat} (h : StandsAt language program row) :
    ∃ ts q, ∃ joint ∈ lineJoints, ∃ back,
      Scans language startPlace program.toList ts q (joint ++ '\n' :: back) ∧ q.row = row := by
  obtain ⟨s, hmem, hrow, hend⟩ := h
  obtain ⟨ts, hscan⟩ := scans_of_mem_stops hmem
  obtain ⟨joint, hjoint, back, hs⟩ := endsLine_iff.mp hend
  exact ⟨ts, s.1, joint, hjoint, back, hs ▸ hscan, hrow⟩

theorem newline_not_mem_joint {joint : List Char} (h : joint ∈ lineJoints) : '\n' ∉ joint := by
  have hall : ∀ joint ∈ lineJoints, '\n' ∉ joint := by decide
  exact hall joint h

/-- The end of a line is passed over. -/
theorem scans_lineEnd {joint : List Char} (hjoint : joint ∈ lineJoints) (p : ScanPlace)
    (cs : List Char) : ∃ q, Scans language p (joint ++ '\n' :: cs) [] q cs ∧ q.row = p.row + 1 ∧
      q.opened = p.opened := by
  obtain ⟨ts, q, hscan, hnone, hopened⟩ := Cuts.lineEnd hjoint (cuts_rest language cs) p
  obtain rfl := List.map_eq_nil_iff.mp hnone
  have hrow := hscan.row
  have hone : countRows joint = 0 := List.count_eq_zero.mpr (newline_not_mem_joint hjoint)
  have hrows : countRows (joint ++ '\n' :: cs) = countRows cs + 1 := by
    rw [countRows_append, hone, Nat.zero_add]
    exact List.count_cons_self
  exact ⟨q, hscan, by omega, hopened⟩

end

/-! ## Tokens by their rows -/

section

variable {language : Language} {source : String} {row : Nat}

/-- The tokens of a text that start on a row or before it. -/
def tokensUpTo (language : Language) (source : String) (row : Nat) : List Token :=
  (tokens language source).dropLast.filter (·.row ≤ row)

def tokensBehind (language : Language) (source : String) (row : Nat) : List Token :=
  (tokens language source).dropLast.filter (row < ·.row)

theorem tokens_sorted (language : Language) (source : String) :
    (tokens language source).dropLast.Pairwise fun a b => a.row ≤ b.row := by
  obtain ⟨ts, q, hscan⟩ := scans_all language startPlace source.toList
  obtain ⟨hrows, hsorted⟩ := hscan.rows
  have hplaced : (ts.map Token.placed).Pairwise fun a b => a.2 ≤ b.2 := by
    refine List.pairwise_map.mpr (hsorted.imp_of_mem fun ha _ hab => ?_)
    exact Nat.le_trans (hrows _ ha).2.1 hab
  rw [← hscan.tokens_placed] at hplaced
  exact (List.pairwise_map (f := Token.placed)).mp hplaced

/-- The tokens of a walk that crosses the end of a row are those on both sides of it. -/
theorem tokens_split {ts us : List Token} {q : ScanPlace}
    (h : Scans language startPlace source.toList (ts ++ us) q [])
    (hts : ∀ t ∈ ts, t.row ≤ row) (hus : ∀ t ∈ us, row < t.row) :
    (tokensUpTo language source row).map Token.lexeme = ts.map Token.lexeme ∧
      (tokensBehind language source row).map Token.lexeme = us.map Token.lexeme := by
  have hfilter (P : Nat → Bool) :
      ((tokens language source).dropLast.filter (P ·.row)).map Token.lexeme =
        (ts.filter (P ·.row)).map Token.lexeme ++ (us.filter (P ·.row)).map Token.lexeme := by
    have hplaced (xs : List Token) : (xs.filter (P ·.row)).map Token.lexeme =
        ((xs.map Token.placed).filter (P ·.2)).map Prod.fst := by
      rw [List.filter_map, map_fst_placed]
      rfl
    rw [hplaced, h.tokens_placed, ← hplaced, List.filter_append, List.map_append]
  constructor
  · refine (hfilter (· ≤ row)).trans ?_
    rw [List.filter_eq_self.mpr fun t ht => decide_eq_true (hts t ht),
      List.filter_eq_nil_iff.mpr fun t ht => by simpa using hus t ht]
    exact List.append_nil _
  · refine (hfilter (row < ·)).trans ?_
    rw [List.filter_eq_nil_iff.mpr fun t ht => by simpa using hts t ht,
      List.filter_eq_self.mpr fun t ht => decide_eq_true (hus t ht)]
    rfl

end

/-! ## Lines put behind a row -/

theorem countRows_unlinesChars {ls : List (List Char)} (h : ∀ l ∈ ls, '\n' ∉ l) :
    countRows (unlinesChars ls) = ls.length := by
  induction ls with
  | nil => rfl
  | cons l ls ih =>
    have hl : countRows l = 0 := List.count_eq_zero.mpr (h l List.mem_cons_self)
    have hcons : countRows ('\n' :: unlinesChars ls) = countRows (unlinesChars ls) + 1 :=
      List.count_cons_self
    rw [unlinesChars, countRows_append, hl, hcons, ih fun k hk => h k (List.mem_cons_of_mem _ hk),
      Nat.zero_add, List.length_cons]

/-- The rows left behind a line feed tell where it stands. -/
theorem eq_of_suffix_newline {a b cs : List Char} (ha : '\n' :: a <:+ cs) (hb : '\n' :: b <:+ cs)
    (h : countRows a = countRows b) : a = b := by
  have hless {x y : List Char} (hxy : '\n' :: x <:+ y) : countRows x < countRows y := by
    have hle : countRows ('\n' :: x) ≤ countRows y := hxy.sublist.count_le _
    have hcons : countRows ('\n' :: x) = countRows x + 1 := List.count_cons_self
    omega
  rcases List.suffix_or_suffix_of_suffix ha hb with hab | hba
  · rcases List.suffix_cons_iff.mp hab with he | hab
    · exact (List.cons.inj he).2
    · exact absurd h (Nat.ne_of_lt (hless hab))
  · rcases List.suffix_cons_iff.mp hba with he | hba
    · exact (List.cons.inj he).2.symm
    · exact absurd h (Nat.ne_of_gt (hless hba))

/-- The line feed at the end of a row, with the text before it and behind it. -/
theorem toList_insertLines {row : Nat} {ls : List String} (more : List String)
    (hrow : row < ls.length) :
    ∃ front, (joinLines ls).toList =
        front ++ '\n' :: unlinesChars ((ls.drop (row + 1)).map String.toList) ∧
      (joinLines (insertLines (row + 1) more ls)).toList =
        front ++ '\n' :: (unlinesChars (more.map String.toList) ++
          unlinesChars ((ls.drop (row + 1)).map String.toList)) := by
  have htake : ls.take (row + 1) = ls.take row ++ [ls[row]] := List.take_succ_eq_append_getElem hrow
  have hfront : unlinesChars ((ls.take (row + 1)).map String.toList) =
      unlinesChars ((ls.take row).map String.toList) ++ ls[row].toList ++ ['\n'] := by
    rw [htake, List.map_append, unlinesChars_append, List.append_assoc]
    rfl
  have hls : ls ≠ [] := List.ne_nil_of_length_pos (Nat.zero_lt_of_lt hrow)
  have hlonger : insertLines (row + 1) more ls ≠ [] := by
    simp [insertLines, hls]
  refine ⟨unlinesChars ((ls.take row).map String.toList) ++ ls[row].toList, ?_, ?_⟩
  · conv_lhs => rw [toList_joinLines hls, ← List.take_append_drop (row + 1) ls]
    rw [List.map_append, unlinesChars_append, hfront, List.append_assoc]
    rfl
  · rw [toList_joinLines hlonger, insertLines, List.map_append, List.map_append,
      unlinesChars_append, unlinesChars_append, hfront]
    simp

/-- The lines that are put behind a row stand behind the line feed at its end. -/
theorem exists_front {ls : List String} {back : List Char} (row : Nat) (more : List String)
    (hls : ls ≠ []) (hends : ∀ l ∈ ls, '\n' ∉ l.toList)
    (hback : '\n' :: back <:+ (joinLines ls).toList)
    (hrow : row + 1 + countRows back = countRows (joinLines ls).toList) :
    ∃ front, (joinLines ls).toList = front ++ '\n' :: back ∧
      (joinLines (insertLines (row + 1) more ls)).toList =
        front ++ '\n' :: (unlinesChars (more.map String.toList) ++ back) := by
  have hchars : ∀ l ∈ ls.map String.toList, '\n' ∉ l := by
    intro l hl
    obtain ⟨s, hs, rfl⟩ := List.mem_map.mp hl
    exact hends s hs
  have hall : countRows (joinLines ls).toList = ls.length := by
    rw [toList_joinLines hls, countRows_unlinesChars hchars, List.length_map]
  have hdrop : countRows (unlinesChars ((ls.drop (row + 1)).map String.toList)) =
      ls.length - (row + 1) := by
    rw [countRows_unlinesChars fun l hl => ?_, List.length_map, List.length_drop]
    exact hchars l (List.map_subset _ (List.drop_subset _ _) hl)
  have hin : row < ls.length := by omega
  obtain ⟨front, hfront, hlonger⟩ := toList_insertLines more hin
  have hsame : back = unlinesChars ((ls.drop (row + 1)).map String.toList) :=
    eq_of_suffix_newline hback (hfront ▸ List.suffix_append front _) (by omega)
  rw [← hsame] at hfront hlonger
  exact ⟨front, hfront, hlonger⟩

/-- Lines that are put behind a row at whose end a scan stands are read by themselves, and change no
token on either side. -/
theorem lexemes_insertLines {language : Language} {row : Nat} {more ls : List String}
    {planted : List Lexeme} (hls : ls ≠ []) (hends : ∀ l ∈ ls, '\n' ∉ l.toList)
    (hmore : ∀ back, Cuts language (unlinesChars (more.map String.toList) ++ back) planted back)
    (hstands : StandsAt language (joinLines ls) row) :
    lexemes language (joinLines ls) =
        (tokensUpTo language (joinLines ls) row).map Token.lexeme ++
          (tokensBehind language (joinLines ls) row).map Token.lexeme ∧
      lexemes language (joinLines (insertLines (row + 1) more ls)) =
        (tokensUpTo language (joinLines ls) row).map Token.lexeme ++ planted ++
          (tokensBehind language (joinLines ls) row).map Token.lexeme := by
  obtain ⟨ts, q, joint, hjoint, back, hscan, rfl⟩ := hstands.walk
  obtain ⟨q₁, hline, hrow, hopened₁⟩ := scans_lineEnd hjoint q back
  obtain ⟨us, q₂, hback⟩ := scans_all language q₁ back
  -- the walk through the program
  have hprogram := (hscan.trans hline).trans hback
  rw [List.append_nil] at hprogram
  have hts : ∀ t ∈ ts, t.row ≤ q.row := fun t ht => by
    have := hscan.rows.1 t ht
    omega
  have hus : ∀ t ∈ us, q.row < t.row := fun t ht => by
    have := hback.rows.1 t ht
    omega
  obtain ⟨hupTo, hbehind⟩ := tokens_split hprogram hts hus
  -- the walk through the longer text is the same up to the end of the row
  have hsuffix : '\n' :: back <:+ (joinLines ls).toList :=
    (List.suffix_append joint _).trans hscan.suffix
  have hrows : q₁.row + countRows back = 0 + countRows (joinLines ls).toList :=
    (hscan.trans hline).row
  obtain ⟨front, hfront, hlonger⟩ := exists_front q.row more hls hends hsuffix (by omega)
  have hagree : Agree back (unlinesChars (more.map String.toList) ++ back) (joinLines ls).toList
      (joinLines (insertLines (q.row + 1) more ls)).toList := by
    rw [hfront, hlonger]
    exact .append front
  have hlt : back.length < (joint ++ '\n' :: back).length := by simp; omega
  obtain ⟨rest, hscan', hrest⟩ := hscan.agree hagree hlt
  obtain ⟨zs, rfl, hzs⟩ := hrest.of_append (newline_not_mem_joint hjoint)
  obtain rfl := hzs.of_lineEnd
  obtain ⟨ps, q₃, hplanted, hps, hopened₃⟩ := Cuts.lineEnd hjoint (hmore back) q
  obtain ⟨us', q₄, hback', hus', -⟩ := hback.of_opened (hopened₃.trans hopened₁.symm)
  have htext := (hscan'.trans hplanted).trans hback'
  rw [hprogram.lexemes_eq, htext.lexemes_eq, hupTo, hbehind, List.map_append, List.map_append,
    List.map_append, hps, hus']
  exact ⟨rfl, rfl⟩

theorem cuts_plantedLines {language : Language} {arguments : List String} {count values : String}
    (hc : IsIdentifier count) (hv : IsIdentifier values) (ha : ∀ a ∈ arguments, Lacks '\n' a)
    (back : List Char) :
    Cuts language (unlinesChars ((plantedLines arguments count values).map String.toList) ++ back)
      (declaredLexemes arguments values ++ assignedLexemes (arguments.length + 1) count values)
      back := by
  have hjoint : [] ∈ lineJoints := List.mem_cons_self
  have hassigned := (cuts_assigned hc hv language (arguments.length + 1) ('\n' :: back)).trans
    (.lineEnd hjoint (cuts_rest language back))
  have hdeclared := (cuts_declared hv language ha _).trans (.lineEnd hjoint hassigned)
  rw [plantedLines_eq]
  simpa [unlinesChars] using hdeclared

/-! ## Blocks -/

theorem filter_flatMap {α β : Type} {as : List α} {f : α → List β} {P : β → Bool} {Q : α → Bool}
    (h : ∀ a ∈ as, ∀ b ∈ f a, P b = Q a) : (as.flatMap f).filter P = (as.filter Q).flatMap f := by
  induction as with
  | nil => rfl
  | cons a as ih =>
    have ih := ih fun b hb => h b (List.mem_cons_of_mem _ hb)
    have hfirst : (f a).filter P = if Q a then f a else [] := by
      have ha := h a List.mem_cons_self
      split
      · rename_i hq
        exact List.filter_eq_self.mpr fun b hb => (ha b hb).trans hq
      · rename_i hq
        exact List.filter_eq_nil_iff.mpr fun b hb => by rw [ha b hb]; exact hq
    rw [List.flatMap_cons, List.filter_append, ih, hfirst, List.filter_cons]
    split <;> rfl

/-- The body of the function with which a program starts. -/
def MainBody (t body : Tree) : Prop := ∃ u, t.MainDefinition u ∧ u.child? .body = some body

/-- The block with which a body starts: the body itself, or what stands behind its `try`. -/
inductive StartsWith (body : Tree) : Tree → Prop
  | whole (hk : body.kind = .compoundStatement) : StartsWith body body
  | tried {block : Tree} (hk : body.kind = .tryStatement) (hc : body.child? .body = some block) :
    StartsWith body block

/-- The tokens of a program in which a block stands: those before its brace, those of each of its
children, and those behind it. -/
structure Layout where
  head : List Token
  brace : Token
  children : List (Tree × List Token)
  close : Token
  tail : List Token

namespace Layout

def all (l : Layout) : List Token :=
  l.head ++ l.brace :: (l.children.flatMap Prod.snd ++ l.close :: l.tail)

/-- What stands up to the end of a row in the block: its children that start up to there. -/
def upTo (l : Layout) (row : Nat) : List Token :=
  l.head ++ l.brace :: (l.children.filter fun c => c.1.startRow ≤ row).flatMap Prod.snd

def behind (l : Layout) (row : Nat) : List Token :=
  (l.children.filter fun c => row < c.1.startRow).flatMap Prod.snd ++ l.close :: l.tail

/-- What a parser says of a block in a program. Whatever stands between the braces, comments and
directives too, belongs to a child. -/
structure Of (l : Layout) (language : Language) (program : String) (body : Tree) : Prop where
  tokens_eq : (tokens language program).dropLast = l.all
  opens : l.brace.lexeme = ⟨.punct, "\x7b"⟩ ∧ l.brace.row = body.startRow
  closes : l.close.lexeme = ⟨.punct, "\x7d"⟩ ∧ l.close.row = body.endRow
  children_eq : l.children.map Prod.fst = body.namedChildren
  inside : ∀ c ∈ l.children, ∀ t ∈ c.2, c.1.startRow ≤ t.row ∧ t.row ≤ c.1.endRow
  covered : ∀ row, body.startRow ≤ row → row < body.endRow →
    StandsAt language program row ∨ ∃ c ∈ body.namedChildren, c.startRow ≤ row ∧ row < c.endRow

variable {l : Layout} {language : Language} {program : String} {body : Tree}

/-- Tokens in the order of their rows. -/
theorem Of.sorted (hl : l.Of language program body) : l.all.Pairwise fun a b => a.row ≤ b.row :=
  hl.tokens_eq ▸ tokens_sorted language program

theorem Of.ordered (hl : l.Of language program body) : body.startRow ≤ body.endRow := by
  have hsorted := (List.pairwise_append.mp hl.sorted).2.1
  have hle := (List.pairwise_cons.mp hsorted).1 l.close (by simp)
  rw [← hl.opens.2, ← hl.closes.2]
  exact hle

/-- If no child that starts on the row of the brace goes on behind it, the tokens up to the end of
that row are those of some children, and the others are those of the other children. -/
theorem Of.tokens_rows (hl : l.Of language program body) (hlt : body.startRow < body.endRow)
    (hwhole : ∀ c ∈ body.namedChildren, c.startRow ≤ body.startRow → c.endRow ≤ body.startRow) :
    tokensUpTo language program body.startRow = l.upTo body.startRow ∧
      tokensBehind language program body.startRow = l.behind body.startRow := by
  obtain ⟨-, hinner, hhead⟩ := List.pairwise_append.mp hl.sorted
  obtain ⟨-, hrest, -⟩ := List.pairwise_append.mp (List.pairwise_cons.mp hinner).2
  have htail := (List.pairwise_cons.mp hrest).1
  have hopen := hl.opens.2
  have hclose := hl.closes.2
  have hfront : ∀ t ∈ l.head, t.row ≤ body.startRow := fun t ht =>
    hopen ▸ hhead t ht l.brace List.mem_cons_self
  have hback : ∀ t ∈ l.close :: l.tail, body.startRow < t.row := by
    intro t ht
    rcases List.mem_cons.mp ht with rfl | ht
    · omega
    · have := htail t ht
      omega
  have hpiece : ∀ c ∈ l.children, ∀ t ∈ c.2,
      t.row ≤ body.startRow ↔ c.1.startRow ≤ body.startRow := by
    intro c hc t ht
    have hrow := hl.inside c hc t ht
    have hend := hwhole c.1 (hl.children_eq ▸ List.mem_map_of_mem hc)
    omega
  have hupTo : (l.children.flatMap Prod.snd).filter (·.row ≤ body.startRow) =
      (l.children.filter fun c => c.1.startRow ≤ body.startRow).flatMap Prod.snd :=
    filter_flatMap fun c hc t ht => decide_eq_decide.mpr (hpiece c hc t ht)
  have hbehind : (l.children.flatMap Prod.snd).filter (body.startRow < ·.row) =
      (l.children.filter fun c => body.startRow < c.1.startRow).flatMap Prod.snd :=
    filter_flatMap fun c hc t ht => decide_eq_decide.mpr (by have := hpiece c hc t ht; omega)
  have hnone : (l.close :: l.tail).filter (·.row ≤ body.startRow) = [] :=
    List.filter_eq_nil_iff.mpr fun t ht => by simpa using hback t ht
  have hclosed : (l.close :: l.tail).filter (body.startRow < ·.row) = l.close :: l.tail :=
    List.filter_eq_self.mpr fun t ht => decide_eq_true (hback t ht)
  rw [tokensUpTo, tokensBehind, hl.tokens_eq, all, upTo, behind]
  constructor
  · rw [List.filter_append, List.filter_eq_self.mpr fun t ht => decide_eq_true (hfront t ht),
      List.filter_cons_of_pos (by simp [hopen]), List.filter_append, hupTo, hnone, List.append_nil]
  · rw [List.filter_append, List.filter_eq_nil_iff.mpr fun t ht => by simpa using hfront t ht,
      List.nil_append, List.filter_cons_of_neg (by simp [hopen]), List.filter_append, hbehind,
      hclosed]

end Layout

/-- The planted lines stand between children of the block of `main`, and what is read of them are a
declaration and two assignments, unless a child that starts on the row of the brace goes on behind
it. A body may also start with `try`; then the brace has to stand on the row of that word, and the
block may not end there. -/
theorem plantWith_between {parse : Language → String → Except Fault Tree} {language : Language}
    {source arguments text : String} {p : Planting} {t body block : Tree} {l : Layout}
    (hparse : parse language source = .ok t)
    (hnames : ∀ i, t.Within i → i.kind = .identifier → IsIdentifier i.text)
    (hbody : MainBody t body) (hblock : StartsWith body block)
    (hlayout : l.Of language (joinLines (lines source)) block)
    (htried : body.kind = .tryStatement →
      block.startRow = body.startRow ∧ block.endRow ≠ block.startRow)
    (hwhole : ∀ c ∈ block.namedChildren, c.startRow ≤ block.startRow → c.endRow ≤ block.startRow)
    (h : plantWith parse language source arguments = .ok (text, p)) :
    p.line = block.startRow + 2 ∧ StandsAt language (joinLines (lines source)) block.startRow ∧
      ('\r' ∉ source.toList → source.toList.getLast? = some '\n' →
        joinLines (lines source) = source) ∧
      ∃ e count values declared assigned,
        entryOf parse language source = .ok e ∧ e.countAndValues = some (count, values) ∧
        lexemes language (joinLines (lines source)) =
          (l.upTo block.startRow).map Token.lexeme ++
            (l.behind block.startRow).map Token.lexeme ∧
        lexemes language text =
          (l.upTo block.startRow).map Token.lexeme ++ (declared ++ assigned) ++
            (l.behind block.startRow).map Token.lexeme ∧
        readArray declared = some (Artifacts.argumentArray,
          .element values 0 :: (words arguments).map (fun a => .text (octets a)) ++ [.number 0]) ∧
        readAssignments assigned = some [(count, .number ((words arguments).length + 1)),
          (values, .name Artifacts.argumentArray)] := by
  obtain ⟨e, count, values, hfound, hpair, hne, hline, htext⟩ := plantWith_ok h
  obtain ⟨t', ht', hentry⟩ := entryOf_eq_ok hfound
  cases hparse.symm.trans ht'
  -- the body that is looked at is that of `main`
  obtain ⟨u, hu, hdefines⟩ := Tree.mainDefinition_of_firstEntry hentry
  obtain ⟨body', hbody', hopen, hclose⟩ := hdefines.body
  obtain ⟨u', hu', hbody⟩ := hbody
  obtain rfl := hu'.unique hu
  cases hbody.symm.trans hbody'
  have hrows : block.startRow = body.startRow ∧ block.startRow < block.endRow := by
    have := hlayout.ordered
    cases hblock with
    | whole _ => exact ⟨rfl, by omega⟩
    | tried hk _ =>
      obtain ⟨hstart, hend⟩ := htried hk
      exact ⟨hstart, by omega⟩
  obtain ⟨hsame, hlt⟩ := hrows
  have hstands : StandsAt language (joinLines (lines source)) block.startRow := by
    rcases hlayout.covered block.startRow (Nat.le_refl _) hlt with hstands | ⟨c, hc, hstart, hend⟩
    · exact hstands
    · exact absurd (hwhole c hc hstart) (Nat.not_le_of_lt hend)
  -- the names are words
  obtain ⟨more, hmore⟩ := EntryPoint.parameters_of_countAndValues hpair
  have hword {n : String} (hn : some n ∈ e.parameters) : IsIdentifier n := by
    obtain ⟨i, hi, hkind, rfl⟩ := Tree.within_of_mem_parameters hentry hn
    exact hnames i hi hkind
  have hcount : IsIdentifier count := hword (by simp [hmore])
  have hvalues : IsIdentifier values := hword (by simp [hmore])
  have hwords : ∀ a ∈ words arguments, Lacks '\n' a :=
    fun a ha => lacks_of_mem_words (by decide) ha
  have hls : lines source ≠ [] := by
    intro hnone
    have htokens := hlayout.tokens_eq
    have hempty : (tokens language (joinLines [])).dropLast = [] := by cases language <;> rfl
    rw [hnone, hempty, Layout.all] at htokens
    simp at htokens
  obtain ⟨hprogram, hlonger⟩ := lexemes_insertLines hls (newline_not_mem_lines source)
    (fun back => cuts_plantedLines hcount hvalues hwords back) hstands
  obtain ⟨hupTo, hbehind⟩ := hlayout.tokens_rows hlt hwhole
  rw [hupTo, hbehind] at hprogram hlonger
  rw [hsame, ← hopen, ← htext, ← hsame] at hlonger
  exact ⟨by omega, hstands, joinLines_lines, e, count, values, _, _, hfound, hpair, hprogram,
    hlonger, readArray_declared hwords, readAssignments_assigned⟩

/-- A `main` with a declaration on the row of its brace and a statement behind it. -/
def openedMain : String := "int main(int c,char**v)\x7b int i;\n i=1;\n\x7d\n"

def openedBody : Tree :=
  let name (row : Nat) : Tree := .node .identifier true none "i" row row []
  let type : Tree := .node .primitiveType true none "int" 0 0 []
  let one : Tree := .node .literal true none "1" 1 1 []
  .branch .compoundStatement 0 2
    [.branch .declaration 0 0 [type.inField .type, (name 0).inField .declarator],
      .branch .statement 1 1 [.branch .expression 1 1 [name 1, one]]]

def openedTree : Tree :=
  let leaf (k : Kind) (text : String) : Tree := .node k true none text 0 0 []
  let parameter (type : String) (d : Tree) : Tree := .branch .parameterDeclaration 0 0
    [(leaf .primitiveType type).inField .type, d.inField .declarator]
  let pointer (d : Tree) : Tree := .branch .pointerDeclarator 0 0 [d.inField .declarator]
  let list : Tree := .branch .parameterList 0 0
    [parameter "int" (leaf .identifier "c"),
      parameter "char" (pointer (pointer (leaf .identifier "v")))]
  .branch .sourceUnit 0 2 [.branch .functionDefinition 0 2
    [(leaf .primitiveType "int").inField .type,
      (Tree.branch .functionDeclarator 0 0 [(leaf .identifier "main").inField .declarator,
        list.inField .parameters]).inField .declarator,
      openedBody.inField .body]]

/-- The block of that `main` among the tokens of the program. -/
def openedLayout : Layout :=
  let ts := (tokens .c openedMain).dropLast
  let piece (n m : Nat) : List Token := (ts.drop n).take m
  ⟨piece 0 11, ts.getD 11 (finishAt startPlace),
    (openedBody.namedChildren.zip [piece 12 3, piece 15 4]), ts.getD 19 (finishAt startPlace), []⟩

theorem plantWith_between_of_opened :
    ∃ text p declared assigned,
      plantWith (fun _ _ => .ok openedTree) .c openedMain "a" = .ok (text, p) ∧ p.line = 2 ∧
      lexemes .c text = (lexemes .c openedMain).take 15 ++ (declared ++ assigned) ++
        (lexemes .c openedMain).drop 15 ∧
      readArray declared = some (Artifacts.argumentArray,
        [.element "v" 0, .text (octets "a"), .number 0]) ∧
      readAssignments assigned =
        some [("c", .number 2), ("v", .name Artifacts.argumentArray)] := by
  have hnames : ∀ i, openedTree.Within i → i.kind = .identifier → IsIdentifier i.text := by
    intro i hi hkind
    have hall := Tree.of_all (q := fun i => i.kind ≠ .identifier ||
      (wordStarts i.text.toList && dropWord i.text.toList = [])) (by decide +kernel) hi
    simp only [hkind, ne_eq, not_true_eq_false, decide_false, Bool.false_or, Bool.and_eq_true,
      decide_eq_true_eq] at hall
    exact ⟨hall.1, hall.2⟩
  have hbody : MainBody openedTree (openedBody.inField .body) :=
    ⟨_, Tree.mainDefinition_of_head? (t := openedTree) rfl rfl, rfl⟩
  have hlayout : openedLayout.Of .c (joinLines (lines openedMain)) (openedBody.inField .body) := by
    have hwhole : joinLines (lines openedMain) = openedMain :=
      joinLines_lines (by decide) (by decide +kernel)
    rw [hwhole]
    refine ⟨by decide +kernel, by decide +kernel, by decide +kernel, rfl, by decide +kernel,
      fun row _ hrow => .inl ?_⟩
    have hstands : ∀ row < 2, StandsAt .c openedMain row := by decide +kernel
    exact hstands row hrow
  obtain ⟨text, p, hplant⟩ : ∃ text p,
      plantWith (fun _ _ => .ok openedTree) .c openedMain "a" = .ok (text, p) :=
    ⟨"int main(int c,char**v)\x7b int i;\n" ++ joinLines (plantedLines ["a"] "c" "v") ++
      " i=1;\n\x7d\n", ⟨2⟩, by decide +kernel⟩
  obtain ⟨hline, -, -, e, count, values, declared, assigned, hfound, hpair, -, hlonger, hread,
    hassigned⟩ :=
    plantWith_between rfl hnames hbody (.whole rfl) hlayout (fun hk => nomatch hk)
      (by decide +kernel) hplant
  have hentry : entryOf (fun _ _ => .ok openedTree) .c openedMain =
      .ok ⟨1, 3, [some "c", some "v"]⟩ := by decide +kernel
  cases hentry.symm.trans hfound
  cases hpair
  have hupTo : (openedLayout.upTo 0).map Token.lexeme = (lexemes .c openedMain).take 15 := by
    decide +kernel
  have hbehind : (openedLayout.behind 0).map Token.lexeme = (lexemes .c openedMain).drop 15 := by
    decide +kernel
  have hwords : words "a" = ["a"] := by decide +kernel
  rw [hwords] at hread hassigned
  exact ⟨text, p, declared, assigned, hplant, hline, hupTo ▸ hbehind ▸ hlonger, hread, hassigned⟩

/-- A body that starts in a comment, one that starts in a statement, and one before which a word
stands. -/
def commentOpened : String := "int main(int c, char **v) \x7b /* a\n b */\nreturn 0;\n\x7d\n"

def statementOpened : String := "int main(int c, char **v) \x7b return\n0;\n\x7d\n"

def tryOpened : String :=
  "int main(int c, char **v) try\n\x7b\nreturn 0;\n\x7d catch (...)\n\x7b\n\x7d\n"

/-- The text of two lines that are planted. -/
def plantedText : String := joinLines (plantedLines ["a", "b"] "c" "v")

def plantedLexemes : List Lexeme := declaredLexemes ["a", "b"] "v" ++ assignedLexemes 3 "c" "v"

/-- The lines are planted in the comment, where nothing is read of them; behind the first word of
the statement; and before the brace. -/
theorem plant_misplaced :
    (∃ text, plant .c commentOpened "a b" = .ok (text, ⟨2⟩) ∧ ¬ StandsAt .c commentOpened 0 ∧
      lexemes .c text = lexemes .c commentOpened) ∧
    (∃ text front back, plant .c statementOpened "a b" = .ok (text, ⟨2⟩) ∧
      lexemes .c statementOpened = front ++ [⟨.word, "return"⟩, zeroLexeme] ++ back ∧
      lexemes .c text = front ++ [⟨.word, "return"⟩] ++ plantedLexemes ++ [zeroLexeme] ++ back) ∧
    ∃ text front back, plant .cpp tryOpened "a b" = .ok (text, ⟨2⟩) ∧
      lexemes .cpp tryOpened = front ++ [⟨.word, "try"⟩, ⟨.punct, "\x7b"⟩] ++ back ∧
      lexemes .cpp text =
        front ++ [⟨.word, "try"⟩] ++ plantedLexemes ++ [⟨.punct, "\x7b"⟩] ++ back := by
  refine ⟨⟨"int main(int c, char **v) \x7b /* a\n" ++ plantedText ++ " b */\nreturn 0;\n\x7d\n",
      by decide +kernel, by decide +kernel, by decide +kernel⟩,
    ⟨"int main(int c, char **v) \x7b return\n" ++ plantedText ++ "0;\n\x7d\n",
      (lexemes .c statementOpened).take 12, (lexemes .c statementOpened).drop 14,
      by decide +kernel, by decide +kernel, by decide +kernel⟩,
    ⟨"int main(int c, char **v) try\n" ++ plantedText ++
        "\x7b\nreturn 0;\n\x7d catch (...)\n\x7b\n\x7d\n",
      (lexemes .cpp tryOpened).take 11, (lexemes .cpp tryOpened).drop 13,
      by decide +kernel, by decide +kernel, by decide +kernel⟩⟩

end Whittle.Insertion
