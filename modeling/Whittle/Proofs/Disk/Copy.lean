import Whittle.Proofs.Disk.Tree
import Whittle.Proofs.Disk.Ways

/-!
# Copies, with links or without

Whether a file can be copied is up to the target alone (`copy_isOk`). The copy has the content of
the original, unless both are at one place: then the target is emptied before it is read
(`copy_cases`). What is written to a file is read there (`read_write`).
-/

namespace Whittle.Disk

variable {d d' : Disk} {p source target : Path} {content : ByteArray} {x : Bool}

/-- A path that leads to a file, to a device, or to a place where a file can be made. -/
def Writable (d : Disk) (p : Path) : Prop :=
  ∃ l, d.locate .file p = .ok l ∧ d.get? l ≠ some .dir ∧
    ∀ target, d.get? l ≠ some (.link target)

theorem locate_target_of_file {l : Location} (h : d.locate .file p = .ok l) :
    d.locate .target p = .ok l := by
  obtain ⟨hcheck, hroute⟩ := locate_iff.mp h
  exact locate_iff.mpr ⟨hcheck, hroute.target nofun⟩

theorem not_root {l : Location} (h : d.get? l ≠ some .dir) : l ≠ [] := by
  rintro rfl
  exact h (get?_nil d)

/-! ## Writing -/

theorem write_isOk : (∃ d', d.write p content x = .ok d') ↔ Writable d p := by
  unfold write
  constructor
  · rintro ⟨d', h⟩
    split at h
    · cases h
    · rename_i l hl
      refine ⟨l, hl, ?_⟩
      split at h
      · rename_i hnode
        simp [hnode]
      · rename_i hnode
        simp [hnode]
      · cases h
      · rename_i hnode
        simp [hnode]
  · rintro ⟨l, hl, hdir, hlink⟩
    rw [hl]
    dsimp only
    cases hnode : d.get? l with
    | none => exact ⟨_, rfl⟩
    | some n =>
      cases n with
      | file id c x' => exact ⟨_, rfl⟩
      | sink => exact ⟨_, rfl⟩
      | dir => exact absurd hnode hdir
      | link target => exact absurd hnode (hlink target)

theorem ways_put {l : Location} (hdir : d.get? l ≠ some .dir)
    (hlink : ∀ target, d.get? l ≠ some (.link target)) {n : Node}
    (hn : ∀ target, n ≠ .link target) : Ways d (d.put l n) :=
  .of_change hdir hlink hn rfl (get?_put d (not_root hdir) n)

theorem ways_write (h : d.write p content x = .ok d') : Ways d d' := by
  obtain ⟨l, hl, hdir, hlink⟩ := write_isOk.mp ⟨d', h⟩
  unfold write at h
  rw [hl] at h
  dsimp only at h
  have hfile (id : Nat) (x' : Bool) : ∀ target, Node.file id content x' ≠ .link target := nofun
  split at h
  · cases h
    exact ways_put hdir hlink (hfile _ _)
  · cases h
    exact .refl d
  · cases h
  · cases h
    exact .of_change hdir hlink (hfile _ _) rfl (get?_put d (not_root hdir) _)

/-- A path that leads to a device, which takes what is written and holds nothing. -/
def IsDevice (d : Disk) (p : Path) : Prop := ∃ l, d.stat p = .ok (l, .sink)

theorem write_cases (h : d.write p content x = .ok d') :
    d.IsDevice p ∨ ∃ l id x', d'.stat p = .ok (l, .file id content x') := by
  obtain ⟨l, n, hl, htakes, halters⟩ := write_ok h
  have hlocate := locate_target_of_file hl
  rcases htakes with rfl | ⟨id, x', rfl⟩
  · refine .inl ⟨l, stat_of_locate hlocate ?_⟩
    have hself := halters.self
    unfold write at h
    rw [hl] at h
    dsimp only at h
    have hfile (id : Nat) (x' : Bool) (hput : d'.get? l = some (.file id content x')) : False := by
      rw [hself] at hput
      cases hput
    split at h
    · cases h
      exact (hfile _ _ ((get?_put d halters.not_root _ _).trans (if_pos rfl))).elim
    · rename_i hnode
      exact hnode
    · cases h
    · cases h
      exact (hfile _ _ ((get?_put d halters.not_root _ _).trans (if_pos rfl))).elim
  · exact .inr ⟨l, id, x', stat_of_locate ((ways_write h).locate hlocate) halters.self⟩

/-- What was written is what is read, unless a device has taken it. -/
theorem read_write (h : d.write p content x = .ok d') (hdevice : ¬ d.IsDevice p) :
    d'.read p = .ok content := by
  rcases write_cases h with h | ⟨l, id, x', hstat⟩
  · exact absurd h hdevice
  · rw [read, hstat]

theorem fromUTF8?_toUTF8 (text : String) : String.fromUTF8? text.toUTF8 = some text := by
  simpa [String.fromUTF8?] using ⟨text.isValidUTF8, rfl⟩

theorem readText_eq_ok {text : String} (h : d.readText p = .ok text) :
    ∃ b, d.read p = .ok b ∧ String.fromUTF8? b = some text := by
  unfold readText at h
  split at h
  · rename_i b hb
    split at h
    · rename_i t ht
      cases h
      exact ⟨b, hb, ht⟩
    · cases h
  · cases h

theorem readText_of_read {text : String} (h : d.read p = .ok content)
    (htext : String.fromUTF8? content = some text) : d.readText p = .ok text := by
  simp only [readText, h, htext]

/-! ## Copying -/

/-- What a copy leaves of a disk: at most the place that the target leads to has changed. -/
structure Copied (d d' : Disk) (target : Path) (goal : Location) : Prop where
  located : d.locate .file target = .ok goal
  not_dir : d.get? goal ≠ some .dir
  ways : Ways d d'
  other : ∀ P, P ≠ goal → d'.get? P = d.get? P

theorem copy_source (h : d.copy source target = .ok d') :
    ∃ place id content x, d.stat source = .ok (place, .file id content x) := by
  unfold copy at h
  split at h
  · cases h
  · rename_i hstat
    exact ⟨_, _, _, _, hstat⟩
  · cases h

section

variable {place : Location} {id : Nat} (hsource : d.stat source = .ok (place, .file id content x))
include hsource

theorem copy_cases (h : d.copy source target = .ok d') :
    ∃ goal, Copied d d' target goal ∧
      (d'.get? goal = some .sink ∨ ∃ id', d'.get? goal =
        some (.file id' (if place = goal then ByteArray.empty else content) x)) := by
  unfold copy at h
  rw [hsource] at h
  dsimp only at h
  split at h
  · cases h
  · rename_i emptied hempty
    obtain ⟨goal, n, hgoal, htakes, halters⟩ := write_ok hempty
    have hways := ways_write hempty
    obtain ⟨l, hl, hdir, -⟩ := write_isOk.mp ⟨emptied, hempty⟩
    cases hgoal.symm.trans hl
    rw [hways.locate hgoal] at h
    dsimp only at h
    rw [halters.self] at h
    refine ⟨goal, ?_⟩
    rcases htakes with rfl | ⟨id', x', rfl⟩
    · cases h
      exact ⟨⟨hgoal, hdir, hways, fun _ hP => halters.other hP⟩, .inl halters.self⟩
    · cases h
      have hself := halters.self
      have hput := get?_put emptied halters.not_root (.file id' (emptied.contentAt place) x)
      have hways' : Ways d (emptied.put goal (.file id' (emptied.contentAt place) x)) :=
        hways.trans (ways_put (by simp [hself]) (by simp [hself]) nofun)
      refine ⟨⟨hgoal, hdir, hways', fun P hP => ?_⟩, .inr ⟨id', ?_⟩⟩
      · rw [hput, if_neg hP, halters.other hP]
      · rw [hput, if_pos rfl, contentAt]
        by_cases hplace : place = goal
        · rw [if_pos hplace, hplace, hself]
        · rw [if_neg hplace, halters.other hplace, (stat_eq_ok hsource).2]

theorem copy_isOk : (∃ d', d.copy source target = .ok d') ↔ Writable d target := by
  unfold copy
  rw [hsource]
  dsimp only
  constructor
  · rintro ⟨d', h⟩
    split at h
    · cases h
    · rename_i emptied hempty
      exact write_isOk.mp ⟨emptied, hempty⟩
  · intro h
    obtain ⟨emptied, hempty⟩ := write_isOk.mpr h
    obtain ⟨goal, n, hgoal, htakes, halters⟩ := write_ok hempty
    rw [hempty]
    dsimp only
    rw [(ways_write hempty).locate hgoal]
    dsimp only
    rw [halters.self]
    rcases htakes with rfl | ⟨id', x', rfl⟩ <;> exact ⟨_, rfl⟩

end

/-- The target of a copy is there, as a file or as a device. -/
theorem stat_copy (h : d.copy source target = .ok d') :
    ∃ l n, d'.stat target = .ok (l, n) ∧ (n.isFile = true ∨ n = .sink) := by
  obtain ⟨place, id, content, x, hsource⟩ := copy_source h
  obtain ⟨goal, hcopied, hnode⟩ := copy_cases hsource h
  have hlocate := hcopied.ways.locate (locate_target_of_file hcopied.located)
  rcases hnode with hn | ⟨id', hn⟩
  · exact ⟨goal, _, stat_of_locate hlocate hn, .inr rfl⟩
  · exact ⟨goal, _, stat_of_locate hlocate hn, .inl rfl⟩

/-- A copy does not lead a path astray, and changes at most the place that the target leads to. -/
theorem copied (h : d.copy source target = .ok d') : ∃ goal, Copied d d' target goal := by
  obtain ⟨place, id, content, x, hsource⟩ := copy_source h
  obtain ⟨goal, hcopied, -⟩ := copy_cases hsource h
  exact ⟨goal, hcopied⟩

theorem Copied.alters {goal : Location} (h : Copied d d' target goal) :
    Alters d d' goal (d'.get? goal) where
  not_root := not_root h.not_dir
  get? P := by
    split
    · rename_i e
      rw [e]
    · rename_i e
      exact h.other P e

/-- A file that a copy is not written to is there as before. -/
theorem Copied.holds {goal l : Location} (h : Copied d d' target goal) (hl : Reached d l)
    (hne : goal ≠ l) : Holds l d d' := by
  intro P n hP hn
  rw [h.other P, hn]
  rintro rfl
  -- above a place that is reached there are directories, and no file is written to one
  exact h.not_dir (hl.above P hP hne)

/-! ## Places without links -/

section

variable {d d' : Disk} {m : Location} (hstraight : d.Straight m) (hm : ∀ n ∈ m, IsName n)
include hstraight hm

theorem unlink_at (h : d.unlink (pathOf m) = .ok d') : SameLinks d d' ∧ Alters d d' m none := by
  obtain ⟨k, hk, halters⟩ := unlink_ok h
  rw [locateEntry_pathOf hm] at hk
  obtain ⟨-, -, rfl⟩ := (locate_pathOf_iff hstraight.self hm).mp hk
  exact ⟨halters.links (fun target => hstraight.self k target (List.prefix_refl k)) (by simp),
    halters⟩

theorem write_at {content : ByteArray} {x : Bool} (h : d.write (pathOf m) content x = .ok d') :
    SameLinks d d' ∧ ∃ n, Alters d d' m n := by
  obtain ⟨k, n, hk, -, halters⟩ := write_ok h
  obtain ⟨-, -, rfl⟩ := (locate_pathOf_iff hstraight.self hm).mp hk
  exact ⟨(ways_write h).link, _, halters⟩

theorem copy_at {source : Path} (h : d.copy source (pathOf m) = .ok d') :
    SameLinks d d' ∧ ∃ n, Alters d d' m n := by
  obtain ⟨goal, hcopied⟩ := copied h
  obtain ⟨-, -, rfl⟩ := (locate_pathOf_iff hstraight.self hm).mp hcopied.located
  exact ⟨hcopied.ways.link, _, hcopied.alters⟩

end

end Whittle.Disk
