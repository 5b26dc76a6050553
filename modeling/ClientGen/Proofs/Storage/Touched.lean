import ClientGen.Proofs.Storage.Disk

/-!
# What is touched on a disk

`Touches files ways` is the frame of work on a disk: files are written only where the paths `files`
lead, and directories are created only on the way of the paths `ways`. At any other place there is
what was there before.

* **Paths in parts.** A path is put together from its components, and they are found again
  (`Path.components_ofComponents`). So the directories that are created for a file are those that
  the beginnings of its path lead to.
* **Frames.** They are put together by `Touches.trans`: what one piece of work has touched is named
  by the same paths after the next one, as directories stay (`Leads.mono`, `Passes.mono`).
* **Operations.** `touches_writeText`, and `touches_createDirectories`, whether all directories can
  be created or not.
-/

namespace ClientGen

namespace Path

/-! ## Paths in parts -/

/-- A text that can stand between slashes. -/
def IsSegment (s : String) : Prop := s ≠ "" ∧ '/' ∉ s.toList

theorem isSegment_of_mem_segments {path s : String} (h : s ∈ segments path) : IsSegment s := by
  obtain ⟨piece, hpiece, rfl⟩ := List.mem_map.mp h
  obtain ⟨hmem, hne⟩ := List.mem_filter.mp hpiece
  refine ⟨by simpa using hne, ?_⟩
  rw [String.toList_ofList]
  exact Text.notMem_of_mem_splitOnChar hmem

/-- The segments of a path are found again. -/
theorem segments_ofComponents (absolute : Bool) {cs : List String} (h : ∀ c ∈ cs, IsSegment c) :
    segments (ofComponents absolute cs) = cs := by
  have hrelative : segments ("/".intercalate cs) = cs := by
    rcases eq_or_ne cs [] with rfl | hne
    · rfl
    · have hsplit : Text.splitOnChar '/' ("/".intercalate cs).toList = cs.map String.toList := by
        rw [Text.splitOnChar_eq_splitOn, String.toList_intercalate]
        refine List.splitOn_intercalate '/' ?_ (by simpa using hne)
        exact List.forall_mem_map.mpr fun c hc => (h c hc).2
      have hfilter : (cs.map String.toList).filter (! ·.isEmpty) = cs.map String.toList :=
        List.filter_eq_self.mpr (List.forall_mem_map.mpr fun c hc => by simpa using (h c hc).1)
      rw [segments, hsplit, hfilter]
      simp
  cases absolute with
  | false => simpa [ofComponents] using hrelative
  | true =>
    -- before the first slash there is nothing
    have hslash : segments ("/" ++ "/".intercalate cs) = segments ("/".intercalate cs) := by
      rw [segments, segments, Text.splitOnChar_eq_splitOn, Text.splitOnChar_eq_splitOn,
        String.toList_append]
      simp [List.splitOn_cons_eq_if_modifyHead]
    rw [ofComponents, if_pos rfl, hslash, hrelative]

/-- Components as a path has them: a `.` counts only in front of a relative path. -/
structure Normal (absolute : Bool) (cs : List String) : Prop where
  segment : ∀ c ∈ cs, IsSegment c
  tail : ∀ c ∈ cs.tail, c ≠ "."
  head : absolute = true → cs.head? ≠ some "."

theorem normal_components (path : String) : Normal (isAbsolute path) (components path) := by
  have hsegments : ∀ s ∈ segments path, IsSegment s := fun s => isSegment_of_mem_segments
  rw [components]
  split
  · exact ⟨by simp, by simp, by simp⟩
  · rename_i first rest heq
    rw [heq, List.forall_mem_cons] at hsegments
    obtain ⟨hfirst, hrest⟩ := hsegments
    have hkept : ∀ c ∈ rest.filter (· ≠ "."), IsSegment c ∧ c ≠ "." := by
      intro c hc
      obtain ⟨hmem, hdot⟩ := List.mem_filter.mp hc
      exact ⟨hrest c hmem, by simpa using hdot⟩
    split
    · refine ⟨fun c hc => (hkept c hc).1, ?_, ?_⟩
      · exact fun c hc => (hkept c (List.mem_of_mem_tail hc)).2
      · exact fun _ hhead => (hkept "." (List.mem_of_mem_head? hhead)).2 rfl
    · rename_i hnot
      refine ⟨List.forall_mem_cons.mpr ⟨hfirst, fun c hc => (hkept c hc).1⟩, ?_, ?_⟩
      · exact fun c hc => (hkept c hc).2
      · intro habsolute hhead
        exact hnot ⟨Option.some.inj hhead, habsolute⟩

theorem Normal.mono {absolute : Bool} {cs way : List String} (h : Normal absolute cs)
    (hway : way <+: cs) : Normal absolute way := by
  obtain ⟨rest, rfl⟩ := hway
  refine ⟨fun c hc => h.segment c (List.mem_append_left rest hc), ?_, ?_⟩
  · intro c hc
    cases way with
    | nil => cases hc
    | cons first way => exact h.tail c (List.mem_append_left rest hc)
  · intro habsolute hhead
    cases way with
    | nil => cases hhead
    | cons first way => exact h.head habsolute hhead

/-- **The components of a path are found again.** -/
theorem components_ofComponents {absolute : Bool} {cs : List String} (h : Normal absolute cs) :
    components (ofComponents absolute cs) = cs ∧
      isAbsolute (ofComponents absolute cs) = absolute := by
  have habsolute : isAbsolute (ofComponents absolute cs) = absolute := by
    cases absolute with
    | true => simp [ofComponents, isAbsolute]
    | false =>
      cases cs with
      | nil => rfl
      | cons first rest =>
        -- a relative path starts with the first character of a segment
        obtain ⟨hne, hslash⟩ := h.segment first List.mem_cons_self
        rw [ofComponents, isAbsolute, String.toList_append, String.toList_intercalate]
        rcases hfirst : first.toList with _ | ⟨c, chars⟩
        · exact absurd (String.toList_eq_nil_iff.mp hfirst) hne
        · rw [hfirst] at hslash
          have hc : c ≠ '/' := fun heq => hslash (heq ▸ List.mem_cons_self)
          cases rest <;> simp [hfirst, hc]
  refine ⟨?_, habsolute⟩
  rw [components, segments_ofComponents absolute h.segment, habsolute]
  cases cs with
  | nil => rfl
  | cons first rest =>
    have hrest : rest.filter (· ≠ ".") = rest :=
      List.filter_eq_self.mpr fun c hc => by simpa using h.tail c hc
    have hnot : ¬ (first = "." ∧ absolute = true) := by
      rintro ⟨rfl, ha⟩
      exact h.head ha rfl
    simp only [if_neg hnot, hrest]

/-- The path of the directory that a path is in has the components of the path but the last. -/
theorem components_parent {path parent : String} (h : parent? path = some parent) :
    components parent = (components path).dropLast ∧ isAbsolute parent = isAbsolute path := by
  have hnormal := (normal_components path).mono (List.dropLast_prefix _)
  rw [parent?] at h
  split at h
  · cases h
  · split at h
    · cases h
    · rw [← Option.some.inj h]
      exact components_ofComponents hnormal

end Path

namespace Disk

variable {disk disk₁ disk' : Disk} {path : String} {place : Place}
  {files files' ways ways' : List String}

/-! ## Frames -/

/-- A beginning of the path leads to a directory, which one passes on the way. -/
def Passes (disk : Disk) (path : String) (place : Place) : Prop :=
  ∃ way, way <+: (Path.components path).dropLast ∧ disk.walk [] way = .ok place

theorem Passes.mono (h : disk.Passes path place) (hk : Keeps files disk disk') :
    disk'.Passes path place := by
  obtain ⟨way, hway, hwalk⟩ := h
  exact ⟨way, hway, walk_mono hk hwalk⟩

/-- Where nothing was, there is a directory on the way of one of the paths. -/
structure Created (ways : List String) (disk disk' : Disk) (place : Place) : Prop where
  before : disk.get? place = none
  after : disk'.get? place = some .directory
  passed : ∃ path ∈ ways, disk'.Passes path place

/-- **The frame of work on a disk**: directories stay, and a place at which there is something else
than before is one that a path of `files` leads to, or a directory that was created on the way of a
path of `ways`. -/
structure Touches (files ways : List String) (disk disk' : Disk) : Prop where
  keeps : Keeps files disk disk'
  frame : ∀ place, disk'.get? place = disk.get? place ∨
    (∃ path ∈ files, disk'.Leads path place) ∨ Created ways disk disk' place

namespace Touches

theorem refl (files ways : List String) (disk : Disk) : Touches files ways disk disk :=
  ⟨.refl files disk, fun _ => .inl rfl⟩

theorem mono (h : Touches files ways disk disk') (hfiles : files ⊆ files') (hways : ways ⊆ ways') :
    Touches files' ways' disk disk' := by
  refine ⟨h.keeps.mono hfiles, fun place => ?_⟩
  rcases h.frame place with hsame | ⟨path, hpath, hleads⟩ | ⟨hbefore, hafter, path, hpath, hpasses⟩
  · exact .inl hsame
  · exact .inr (.inl ⟨path, hfiles hpath, hleads⟩)
  · exact .inr (.inr ⟨hbefore, hafter, path, hways hpath, hpasses⟩)

/-- Frames are put together. What was touched first is named by the same paths after the rest. -/
theorem trans (h₁ : Touches files ways disk disk₁) (h₂ : Touches files ways disk₁ disk') :
    Touches files ways disk disk' := by
  refine ⟨h₁.keeps.trans h₂.keeps, fun place => ?_⟩
  rcases h₂.frame place with hsame | hleads | ⟨hbefore, hafter, hpassed⟩
  · rcases h₁.frame place with
      hsame₁ | ⟨path, hpath, hleads⟩ | ⟨hbefore, hafter, path, hpath, hpasses⟩
    · exact .inl (hsame.trans hsame₁)
    · exact .inr (.inl ⟨path, hpath, hleads.mono h₂.keeps⟩)
    · exact .inr (.inr ⟨hbefore, hsame.trans hafter, path, hpath, hpasses.mono h₂.keeps⟩)
  · exact .inr (.inl hleads)
  · rcases h₁.frame place with hsame₁ | ⟨path, hpath, hleads⟩ | ⟨-, hdirectory, -⟩
    · exact .inr (.inr ⟨hsame₁ ▸ hbefore, hafter, hpassed⟩)
    · exact .inr (.inl ⟨path, hpath, hleads.mono h₂.keeps⟩)
    · rw [hbefore] at hdirectory
      cases hdirectory

end Touches

/-! ## Operations -/

theorem touches_writeText {text : String} (h : disk.writeText path text = .ok disk') :
    Touches [path] [] disk disk' := by
  obtain ⟨hkeeps, -⟩ := keeps_writeText h
  obtain ⟨place, hleads, -, rfl⟩ := writeText_eq_ok h
  refine ⟨hkeeps, fun other => ?_⟩
  by_cases hother : other = place
  · exact .inr (.inl ⟨path, List.mem_singleton_self path, hother ▸ hleads.mono hkeeps⟩)
  · exact .inl (get?_put_of_ne disk _ hother)

/-- A directory that was created is where its path leads. -/
theorem walk_createDirectory (h : disk.createDirectory path = .ok disk') :
    ∃ place, disk.get? place = none ∧ disk' = disk.put place .directory ∧
      disk'.walk [] (Path.segments path) = .ok place := by
  have hkeeps := keeps_createDirectory h
  obtain ⟨directory, name, happroaches, hsize, hnone, rfl⟩ := createDirectory_eq_ok h
  refine ⟨directory ++ [name], hnone, rfl, ?_⟩
  obtain ⟨hdot, hdots⟩ := not_or.mp happroaches.proper
  have hsegments : Path.segments path = (Path.segments path).dropLast ++ [name] :=
    (List.dropLast_append_getLast? name happroaches.last).symm
  have hstep : (disk.put (directory ++ [name]) .directory).step directory name =
      .ok (directory ++ [name]) := by
    rw [step, if_neg hdot, if_neg hdots, find, if_neg (Nat.not_lt.mpr hsize),
      get?_put_self disk _ (by simp)]
    rfl
  rw [hsegments, walk, List.foldlM_append]
  have hwalk := walk_mono hkeeps happroaches.walk
  rw [walk] at hwalk
  rw [hwalk]
  change (disk.put (directory ++ [name]) .directory).walk directory [name] = _
  rw [walk, List.foldlM_cons, hstep]
  rfl

/-- The directory of a beginning of a path is created on the way of the path. -/
theorem touches_createDirectory {way : List String}
    (hway : way <+: (Path.components path).dropLast)
    (h : disk.createDirectory (Path.ofComponents (Path.isAbsolute path) way) = .ok disk') :
    Touches [] [path] disk disk' := by
  have hnormal : Path.Normal (Path.isAbsolute path) way :=
    (Path.normal_components path).mono (hway.trans (List.dropLast_prefix _))
  have hkeeps := keeps_createDirectory h
  obtain ⟨place, hnone, rfl, hwalk⟩ := walk_createDirectory h
  rw [Path.segments_ofComponents _ hnormal.segment] at hwalk
  refine ⟨hkeeps, fun other => ?_⟩
  by_cases hother : other = place
  · subst hother
    have hne : other ≠ [] := by
      rintro rfl
      cases hnone
    exact .inr (.inr ⟨hnone, get?_put_self disk _ hne, path, List.mem_singleton_self path,
      way, hway, hwalk⟩)
  · exact .inl (get?_put_of_ne disk _ hother)

/-- So are the directories before it, by induction on the way back. -/
theorem touches_createUpTo (reversed : List String) :
    ∀ disk : Disk, reversed.reverse <+: (Path.components path).dropLast →
      Touches [] [path] disk (disk.createUpTo (Path.isAbsolute path) reversed).2 := by
  induction reversed with
  | nil => exact fun disk _ => .refl [] [path] disk
  | cons last before ih =>
    intro disk hway
    have hbefore := ih disk (by
      rw [List.reverse_cons] at hway
      exact (List.prefix_append _ _).trans hway)
    rw [createUpTo]
    split
    · rename_i created hcreate
      exact touches_createDirectory hway hcreate
    · -- the directories on the way come first, then there is a second attempt
      generalize disk.createUpTo (Path.isAbsolute path) before = result at hbefore ⊢
      obtain ⟨error | _, disk₁⟩ := result
      · exact hbefore
      · refine hbefore.trans ?_
        dsimp only
        split
        · rename_i created hcreate
          exact touches_createDirectory hway hcreate
        · split <;> exact .refl [] [path] disk₁
    · split <;> exact .refl [] [path] disk

/-- The directory that a path is in is created on its way, as far as that is possible. -/
theorem touches_createDirectories {parent : String} (h : Path.parent? path = some parent)
    (disk : Disk) : Touches [] [path] disk (disk.createDirectories parent).2 := by
  obtain ⟨hcomponents, habsolute⟩ := Path.components_parent h
  rw [createDirectories, hcomponents, habsolute]
  exact touches_createUpTo _ disk (by simp)

end Disk

end ClientGen
