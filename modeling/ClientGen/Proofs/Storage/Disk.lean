import ClientGen.Proofs.Outcome
import ClientGen.Proofs.Text.Cut
import ClientGen.Storage.Basic

/-!
# What stays on a disk

A path that a file can be written to leads to a place (`Leads`), and the place ends in the last
segment of the path, on whatever disk. So two paths whose last segments differ lead to two places,
and a text that one of them holds (`Holds`) survives what is done at the other:

* `Keeps` says what stays: directories, and the files that are not named like certain paths. It is
  kept by every operation (`keeps_writeText`, `keeps_createDirectories`) and by sequences of them.
* `Leads.mono` and `Holds.mono` — a path leads where it led, as long as directories stay.
* `Path.lastSegment?_append` finds the last segments of the paths that are made of one target.
-/

namespace ClientGen

/-! ## Last segments -/

/-- The last segment of a path names what it leads to. -/
def Path.lastSegment? (path : String) : Option String := (segments path).getLast?

/-- Paths with one beginning differ in their last segments if they differ at all. Nothing may be put
after it only if it ends in a name already. -/
theorem Path.lastSegment?_append (path : String) : ∃ base : String, ∀ suffix : String,
    '/' ∉ suffix.toList → (suffix = "" → path ≠ "" ∧ endsInSlash path = false) →
    lastSegment? (path ++ suffix) = some (base ++ suffix) := by
  obtain ⟨pieces, last, hlast, hsplit⟩ := Text.splitOnChar_append '/' path.toList
  refine ⟨String.ofList last, fun suffix hslash hempty => ?_⟩
  have hname : last ++ suffix.toList ≠ [] := by
    intro hnil
    obtain ⟨hl, hs⟩ := List.append_eq_nil_iff.mp hnil
    obtain ⟨hpath, hends⟩ := hempty (String.toList_eq_nil_iff.mp hs)
    rcases hlast hl with hp | hp
    · exact hpath (String.toList_eq_nil_iff.mp hp)
    · rw [endsInSlash, hp] at hends
      simp at hends
  rw [lastSegment?, segments, String.toList_append, hsplit suffix.toList hslash]
  simp [List.filter_append, hname]

namespace Disk

/-! ## Places -/

theorem get?_of_ne_nil (disk : Disk) {place : Place} (h : place ≠ []) :
    disk.get? place = disk.entries.lookup place := by
  cases place with
  | nil => exact absurd rfl h
  | cons name place => rfl

theorem lookup_filter_ne {entries : List (Place × Entry)} {place other : Place}
    (h : other ≠ place) :
    (entries.filter (·.1 ≠ place)).lookup other = entries.lookup other := by
  induction entries with
  | nil => rfl
  | cons entry entries ih =>
    by_cases he : entry.1 = place
    · rw [List.filter_cons_of_neg (by simpa using he), ih, List.lookup_cons]
      have hne : (other == entry.1) = false := by simpa [he] using h
      rw [hne]
    · rw [List.filter_cons_of_pos (by simpa using he), List.lookup_cons, List.lookup_cons, ih]

theorem get?_put_self (disk : Disk) {place : Place} (entry : Entry) (h : place ≠ []) :
    (disk.put place entry).get? place = some entry := by
  rw [get?_of_ne_nil _ h, put, List.lookup_cons, beq_self_eq_true]

theorem get?_put_of_ne (disk : Disk) {place other : Place} (entry : Entry) (h : other ≠ place) :
    (disk.put place entry).get? other = disk.get? other := by
  cases other with
  | nil => rfl
  | cons name other =>
    have hne : ((name :: other) == place) = false := by simpa using h
    have hplace : name :: other ≠ [] := List.cons_ne_nil name other
    rw [get?_of_ne_nil _ hplace, get?_of_ne_nil _ hplace, put, List.lookup_cons, hne]
    exact lookup_filter_ne h

theorem find_eq_ok {disk : Disk} {directory : Place} {name : String} {entry : Option Entry}
    (h : disk.find directory name = .ok entry) :
    name.utf8ByteSize ≤ maxNameSize ∧ entry = disk.get? (directory ++ [name]) := by
  rw [find] at h
  split at h
  · cases h
  · exact ⟨by omega, (Except.ok.inj h).symm⟩

/-! ## What stays -/

/-- Nothing goes away but the texts of files that are named like one of the paths. -/
def Keeps (paths : List String) (disk disk' : Disk) : Prop :=
  ∀ place entry, disk.get? place = some entry →
    (entry = .directory ∨ ∀ path ∈ paths, place.getLast? ≠ Path.lastSegment? path) →
    disk'.get? place = some entry

namespace Keeps

variable {paths paths' : List String} {disk disk₁ disk' : Disk}

theorem refl (paths : List String) (disk : Disk) : Keeps paths disk disk := fun _ _ h _ => h

theorem trans (h₁ : Keeps paths disk disk₁) (h₂ : Keeps paths disk₁ disk') :
    Keeps paths disk disk' :=
  fun place entry hget hor => h₂ place entry (h₁ place entry hget hor) hor

theorem mono (h : Keeps paths disk disk') (hsub : paths ⊆ paths') : Keeps paths' disk disk' := by
  intro place entry hget hor
  refine h place entry hget (hor.imp_right fun hall path hpath => ?_)
  exact hall path (hsub hpath)

theorem directory (h : Keeps paths disk disk') {place : Place}
    (hget : disk.get? place = some .directory) : disk'.get? place = some .directory :=
  h place .directory hget (Or.inl rfl)

end Keeps

/-- A new entry takes nothing away. -/
theorem keeps_put_of_none {disk : Disk} {place : Place} (h : disk.get? place = none)
    (entry : Entry) : Keeps [] disk (disk.put place entry) := by
  intro other e hget _
  have hne : other ≠ place := by
    rintro rfl
    rw [h] at hget
    cases hget
  rw [get?_put_of_ne disk entry hne, hget]

/-! ## Where paths lead -/

/-- A step goes where it went, as long as directories stay. -/
theorem step_mono {paths : List String} {disk disk' : Disk} (hk : Keeps paths disk disk')
    {directory place : Place} {segment : String} (h : disk.step directory segment = .ok place) :
    disk'.step directory segment = .ok place := by
  rw [step] at h ⊢
  by_cases hdot : segment = "."
  · rw [if_pos hdot] at h ⊢
    exact h
  · rw [if_neg hdot] at h ⊢
    by_cases hdots : segment = ".."
    · rw [if_pos hdots] at h ⊢
      exact h
    · rw [if_neg hdots] at h ⊢
      obtain ⟨entry, hfind, h⟩ := bind_eq_ok h
      obtain ⟨hsize, rfl⟩ := find_eq_ok hfind
      rcases hget : disk.get? (directory ++ [segment]) with _ | _ | text
      · rw [hget] at h
        cases h
      · rw [hget] at h
        rw [find, if_neg (by omega), hk.directory hget]
        exact h
      · rw [hget] at h
        cases h

/-- So does a walk, by induction on its segments. -/
theorem walk_mono {paths : List String} {disk disk' : Disk} (hk : Keeps paths disk disk')
    {segments : List String} : ∀ {directory place : Place},
      disk.walk directory segments = .ok place → disk'.walk directory segments = .ok place := by
  induction segments with
  | nil => exact fun h => h
  | cons segment segments ih =>
    intro directory place h
    rw [walk, List.foldlM_cons] at h ⊢
    obtain ⟨next, hstep, hrest⟩ := bind_eq_ok h
    rw [step_mono hk hstep]
    exact ih hrest

/-- What a path that leads to a name in a directory is like. -/
structure Approaches (disk : Disk) (path : String) (directory : Place) (name : String) : Prop where
  clean : path.toList.contains '\x00' = false
  nonempty : path.isEmpty = false
  walk : disk.walk [] (Path.segments path).dropLast = .ok directory
  last : Path.lastSegment? path = some name
  proper : ¬ (name = "." ∨ name = "..")

theorem approach_eq_ok_iff {disk : Disk} {path name : String} {directory : Place} :
    disk.approach path = .ok ⟨directory, some name⟩ ↔ disk.Approaches path directory name := by
  constructor
  · intro h
    rw [approach] at h
    split at h
    · cases h
    · rename_i hclean
      split at h
      · cases h
      · rename_i hnonempty
        obtain ⟨place, hwalk, h⟩ := bind_eq_ok h
        split at h
        · cases h
        · rename_i last hlast
          split at h
          · obtain ⟨_, -, h⟩ := bind_eq_ok h
            cases h
          · rename_i hproper
            cases h
            exact ⟨by simpa using hclean, by simpa using hnonempty, hwalk, hlast, hproper⟩
  · rintro ⟨hclean, hnonempty, hwalk, hlast, hproper⟩
    rw [Path.lastSegment?] at hlast
    rw [approach, hclean, hnonempty]
    simp only [hwalk, hlast, if_neg hproper]
    rfl

/-- A path leads to a place that can hold a file. -/
structure Leads (disk : Disk) (path : String) (place : Place) : Prop where
  noSlash : Path.endsInSlash path = false
  exists_directory : ∃ directory name, disk.approach path = .ok ⟨directory, some name⟩ ∧
    name.utf8ByteSize ≤ maxNameSize ∧ place = directory ++ [name]

namespace Leads

variable {paths : List String} {disk disk' : Disk} {path : String} {place : Place}

theorem ne_nil (h : disk.Leads path place) : place ≠ [] := by
  obtain ⟨directory, name, -, -, rfl⟩ := h.exists_directory
  exact List.append_ne_nil_of_right_ne_nil directory (List.cons_ne_nil name [])

theorem getLast?_eq (h : disk.Leads path place) : place.getLast? = Path.lastSegment? path := by
  obtain ⟨directory, name, happroach, -, rfl⟩ := h.exists_directory
  rw [(approach_eq_ok_iff.mp happroach).last, List.getLast?_concat]

/-- **Paths lead where they led**, as long as directories stay. -/
theorem mono (h : disk.Leads path place) (hk : Keeps paths disk disk') :
    disk'.Leads path place := by
  obtain ⟨directory, name, happroach, hsize, hplace⟩ := h.exists_directory
  have ha := approach_eq_ok_iff.mp happroach
  refine ⟨h.noSlash, directory, name, approach_eq_ok_iff.mpr ?_, hsize, hplace⟩
  exact { ha with walk := walk_mono hk ha.walk }

end Leads

/-- A path leads to a file with a text. -/
def Holds (disk : Disk) (path text : String) : Prop :=
  ∃ place, disk.Leads path place ∧ disk.get? place = some (.file text)

theorem Holds.mono {paths : List String} {disk disk' : Disk} {path text : String}
    (h : disk.Holds path text) (hk : Keeps paths disk disk')
    (hapart : ∀ other ∈ paths, Path.lastSegment? path ≠ Path.lastSegment? other) :
    disk'.Holds path text := by
  obtain ⟨place, hleads, hget⟩ := h
  refine ⟨place, hleads.mono hk, hk place _ hget (Or.inr fun other hother => ?_)⟩
  rw [hleads.getLast?_eq]
  exact hapart other hother

theorem Holds.readText {disk : Disk} {path text : String} (h : disk.Holds path text) :
    disk.readText path = .ok text := by
  obtain ⟨place, hleads, hget⟩ := h
  obtain ⟨directory, name, happroach, hsize, rfl⟩ := hleads.exists_directory
  have hlookup : disk.lookup path = .ok (.file text) := by
    rw [lookup, happroach]
    simp only [find, if_neg (Nat.not_lt.mpr hsize), hget, hleads.noSlash, bind, Except.bind]
    rfl
  rw [Disk.readText, hlookup]
  rfl

/-! ## Operations -/

/-- Inversion for writing: a file is put where the path leads, and not in place of a directory. -/
theorem writeText_eq_ok {disk disk' : Disk} {path text : String}
    (h : disk.writeText path text = .ok disk') :
    ∃ place, disk.Leads path place ∧ disk.get? place ≠ some .directory ∧
      disk' = disk.put place (.file text) := by
  rw [writeText] at h
  obtain ⟨⟨directory, name⟩, happroach, h⟩ := bind_eq_ok h
  cases name with
  | none => cases h
  | some name =>
    simp only at h
    split at h
    · cases h
    · rename_i hslash
      obtain ⟨entry, hfind, h⟩ := bind_eq_ok h
      obtain ⟨hsize, rfl⟩ := find_eq_ok hfind
      split at h
      · cases h
      · rename_i hnot
        have hleads : disk.Leads path (directory ++ [name]) :=
          ⟨by simpa using hslash, directory, name, happroach, hsize, rfl⟩
        exact ⟨directory ++ [name], hleads, hnot, (pure_eq_ok h).symm⟩

/-- Writing takes nothing away but what is named like its path, and the text is there after it. -/
theorem keeps_writeText {disk disk' : Disk} {path text : String}
    (h : disk.writeText path text = .ok disk') :
    Keeps [path] disk disk' ∧ disk'.Holds path text := by
  obtain ⟨place, hleads, hnot, rfl⟩ := writeText_eq_ok h
  have hkeeps : Keeps [path] disk (disk.put place (.file text)) := by
    intro other entry hget hor
    have hne : other ≠ place := by
      rintro rfl
      rcases hor with rfl | hor
      · exact hnot hget
      · exact hor path (List.mem_singleton_self path) hleads.getLast?_eq
    rw [get?_put_of_ne disk _ hne, hget]
  exact ⟨hkeeps, place, hleads.mono hkeeps, get?_put_self disk _ hleads.ne_nil⟩

/-- Inversion for directories: a new one is put where nothing was. -/
theorem createDirectory_eq_ok {disk disk' : Disk} {path : String}
    (h : disk.createDirectory path = .ok disk') :
    ∃ directory name, disk.Approaches path directory name ∧ name.utf8ByteSize ≤ maxNameSize ∧
      disk.get? (directory ++ [name]) = none ∧
      disk' = disk.put (directory ++ [name]) .directory := by
  rw [createDirectory] at h
  obtain ⟨⟨directory, name⟩, happroach, h⟩ := bind_eq_ok h
  cases name with
  | none => cases h
  | some name =>
    obtain ⟨entry, hfind, h⟩ := bind_eq_ok h
    obtain ⟨hsize, rfl⟩ := find_eq_ok hfind
    rcases hget : disk.get? (directory ++ [name]) with _ | entry
    · rw [hget] at h
      exact ⟨directory, name, approach_eq_ok_iff.mp happroach, hsize, hget, (pure_eq_ok h).symm⟩
    · rw [hget] at h
      cases h

/-- A new directory takes nothing away. -/
theorem keeps_createDirectory {disk disk' : Disk} {path : String}
    (h : disk.createDirectory path = .ok disk') : Keeps [] disk disk' := by
  obtain ⟨directory, name, -, -, hnone, rfl⟩ := createDirectory_eq_ok h
  exact keeps_put_of_none hnone .directory

/-- Nor do new directories, whether all of them can be created or not, by induction on the way. -/
theorem keeps_createUpTo (absolute : Bool) (reversed : List String) :
    ∀ disk : Disk, Keeps [] disk (disk.createUpTo absolute reversed).2 := by
  induction reversed with
  | nil => exact Keeps.refl []
  | cons last before ih =>
    intro disk
    have hbefore := ih disk
    rw [createUpTo]
    split
    · rename_i created hcreate
      exact keeps_createDirectory hcreate
    · -- the directories on the way come first, then there is a second attempt
      generalize disk.createUpTo absolute before = result at hbefore ⊢
      obtain ⟨error | _, disk₁⟩ := result
      · exact hbefore
      · refine hbefore.trans ?_
        dsimp only
        split
        · rename_i created hcreate
          exact keeps_createDirectory hcreate
        · split <;> exact Keeps.refl [] disk₁
    · split <;> exact Keeps.refl [] disk

theorem keeps_createDirectories (disk : Disk) (path : String) :
    Keeps [] disk (disk.createDirectories path).2 :=
  keeps_createUpTo _ _ disk

end Disk

end ClientGen
