import WorktreeTracker.Proofs.FileTree.Canonical
import WorktreeTracker.Proofs.Locate.Directories
import WorktreeTracker.Proofs.Tracker.Origin

/-!
# Roots of one store

Roots share their references when their shared directories are written alike. Registered roots are
grouped so, and the roots of a group do share a directory. The other way round it depends on how the
directory is written: a marker or a `gitdir:` line can lead through a link, and then another root may
name the same directory by another path. No root is missed exactly when all that share the directory
name it by one path; when one of them names it without links, when all do.
-/

namespace WorktreeTracker

namespace FileTree

variable {t : FileTree}

/-- A directory has a canonical path. -/
theorem exists_canonicalPath_of_isDirectory {p : Path} (h : t.isDirectory p = true) :
    ∃ d, t.canonicalPath p = .ok d := by
  obtain ⟨place, hplace⟩ := isDirectory_iff.1 h
  exact ⟨_, canonicalPath_eq_ok.2 ⟨_, hplace, rfl⟩⟩

/-- The path is written as a place, by the names from the root directory on, and no link stands on
the way. -/
def Unlinked (t : FileTree) (p : Path) : Prop :=
  ∃ place, p = .ofLocation place ∧ t.Straight place ∧ ∀ name ∈ place, isEntryName name = true

/-- A path that leads anywhere is canonical exactly when it is written without links. -/
theorem canonicalPath_eq_self_iff {p d : Path} (h : t.canonicalPath p = .ok d) :
    d = p ↔ t.Unlinked p := by
  constructor
  · rintro rfl
    exact exists_straight_of_canonicalPath (isAbsolute_of_canonicalPath h) h
  · rintro ⟨place, rfl, hstraight, hnames⟩
    have habsolute : (Path.ofLocation place).isAbsolute = true :=
      (Path.startsWith_append (by decide) _).trans (by decide)
    have hcomponents := canonicalPath_components habsolute h
    rw [Path.components_ofLocation hnames] at hcomponents
    obtain ⟨found, hfound, rfl⟩ := canonicalPath_eq_ok.1 hcomponents
    rw [hstraight.place_of_resolve hnames hfound]

end FileTree

/-- The shared directory of a root that is located is there. -/
theorem isDirectory_commonDir_of_locate {t : FileTree} {root : Path} {l : Layout}
    (h : locate t root = .ok l) : t.isDirectory l.commonDir = true := by
  rcases locate_eq_ok.1 h with ⟨hentry, rfl⟩ | ⟨gitDir, commonDir, hgitDir, hcommonDir, rfl⟩
  · rw [FileTree.isDirectory, hentry]
  · exact isDirectory_of_readCommonDir (isDirectory_of_readMarker hgitDir) hcommonDir

namespace Tracker

variable {k : Tracker} {t : FileTree}

/-! ## Groups -/

/-- Every handle that was made was located in the tree. -/
def LocatedIn (k : Tracker) (t : FileTree) : Prop :=
  ∀ id handle, k.handle? id = some handle →
    ∃ root, WorktreeTracker.locate t (normalizeRoot t root) = .ok handle.layout

/-- The handle has its references in the directory with the canonical path `d`. -/
def StoreAt (t : FileTree) (d : Path) (handle : Handle) : Prop :=
  t.canonicalPath handle.layout.commonDir = .ok d

/-- The handles of a group are those of the registered roots that have their references in the
directory `d`. -/
def IsStoreGroup (k : Tracker) (t : FileTree) (d : Path) (group : List Handle) : Prop :=
  ∀ handle, handle ∈ group ↔ handle ∈ k.repositories ∧ StoreAt t d handle

/-- A registered handle was made. -/
theorem exists_of_mem_repositories {handle : Handle} (h : handle ∈ k.repositories) :
    ∃ id, k.handle? id = some handle := by
  obtain ⟨id, -, hid⟩ := List.mem_filterMap.1 h
  exact ⟨id, hid⟩

/-- The handle of a root that is found is registered. -/
theorem mem_repositories_of_require {root : Path} {id : HandleId} {handle : Handle}
    (h : k.require t root = .ok (id, handle)) : handle ∈ k.repositories := by
  obtain ⟨hfind, hhandle⟩ := require_eq h
  exact List.mem_filterMap.2
    ⟨id, List.mem_map.2 ⟨_, OrderedMap.find?_eq_some_iff.1 hfind, rfl⟩, hhandle⟩

/-- A registered handle has its references in a directory that is there. -/
theorem LocatedIn.exists_storeAt (h : k.LocatedIn t) {handle : Handle}
    (hmem : handle ∈ k.repositories) : ∃ d, StoreAt t d handle := by
  obtain ⟨id, hid⟩ := exists_of_mem_repositories hmem
  obtain ⟨root, hroot⟩ := h id handle hid
  exact FileTree.exists_canonicalPath_of_isDirectory (isDirectory_commonDir_of_locate hroot)

/-- Shared directories of registered handles are compared as they are written. -/
theorem LocatedIn.same_iff (h : k.LocatedIn t) {a b : Handle} (ha : a ∈ k.repositories)
    (hb : b ∈ k.repositories) :
    a.layout.commonDir.same b.layout.commonDir = true ↔
      a.layout.commonDir = b.layout.commonDir := by
  obtain ⟨id, hid⟩ := exists_of_mem_repositories ha
  obtain ⟨id', hid'⟩ := exists_of_mem_repositories hb
  obtain ⟨root, hroot⟩ := h id a hid
  obtain ⟨root', hroot'⟩ := h id' b hid'
  refine ⟨commonDir_eq_of_same hroot hroot', fun heq => ?_⟩
  rw [heq]
  exact decide_eq_true rfl

/-- The roots that share the references of a root are those with its shared directory as it is
written. -/
theorem LocatedIn.sharing_eq (h : k.LocatedIn t) {root : Path} {id : HandleId} {handle : Handle}
    (hrequire : k.require t root = .ok (id, handle)) :
    k.sharing t root =
      .ok (k.repositories.filter fun h => h.layout.commonDir = handle.layout.commonDir) := by
  have hmem := mem_repositories_of_require hrequire
  rw [sharing, hrequire]
  refine congrArg Except.ok (List.filter_congr fun other hother => ?_)
  rw [Bool.eq_iff_iff, decide_eq_true_iff]
  exact h.same_iff hother hmem

/-- Two groups are the same or have no handle in common. -/
theorem LocatedIn.sharing_eq_or_disjoint (h : k.LocatedIn t) {root root' : Path}
    {group group' : List Handle} (hgroup : k.sharing t root = .ok group)
    (hgroup' : k.sharing t root' = .ok group') : group' = group ∨ group'.Disjoint group := by
  obtain ⟨⟨id, handle⟩, hrequire, -⟩ := bind_eq_ok.1 hgroup
  obtain ⟨⟨id', handle'⟩, hrequire', -⟩ := bind_eq_ok.1 hgroup'
  obtain rfl := Except.ok.inj ((h.sharing_eq hrequire).symm.trans hgroup)
  obtain rfl := Except.ok.inj ((h.sharing_eq hrequire').symm.trans hgroup')
  by_cases hsame : handle'.layout.commonDir = handle.layout.commonDir
  · rw [hsame]
    exact .inl rfl
  · refine .inr fun other hother hother' => hsame ?_
    have hleft := (List.mem_filter.1 hother).2
    have hright := (List.mem_filter.1 hother').2
    exact (of_decide_eq_true hleft).symm.trans (of_decide_eq_true hright)

/-! ## Runs over one tree -/

variable (stores : StoreRegistry) (settings : TrackerSettings) (bus : EventBus)

/-- In a run over one tree every handle was located in it, when roots are located on disk. -/
theorem locatedIn_of_run {asked : List (World × Request)}
    (hdisk : settings.backend.isConfigurable = true) (htree : ∀ a ∈ asked, a.1.tree = t) :
    (Run.of (onBus stores settings bus) asked).tracker.LocatedIn t := by
  intro id handle hid
  obtain ⟨-, -, horigin⟩ := origin_of_run stores settings bus asked
  obtain ⟨read, w, root, hasked, hread⟩ := horigin id handle hid
  have hlocated := hread.located
  rw [locate_of_configurable hdisk, mapError_eq_ok, htree _ hasked] at hlocated
  exact ⟨root, hlocated⟩

/-- In a run over one tree the registered roots fall into groups, whatever else was asked. The group
of a root has its own handle and those whose shared directory is written as its own is. All of them
have their references in one directory, and the group of every other root is the same one or has none
of them. The group has every registered root with its references in that directory exactly when all of
these name the directory by one path. When the root names it without links, that is when all of them
do. -/
theorem sharing_groups (asked : List (World × Request))
    (hdisk : settings.backend.isConfigurable = true) (htree : ∀ a ∈ asked, a.1.tree = t) :
    let k := (Run.of (onBus stores settings bus) asked).tracker
    ∀ root id handle, k.require t root = .ok (id, handle) →
      ∃ group d, k.sharing t root = .ok group ∧ StoreAt t d handle ∧ handle ∈ group ∧
        (group = k.repositories.filter fun h => h.layout.commonDir = handle.layout.commonDir) ∧
        (∀ h ∈ group, StoreAt t d h) ∧
        (∀ other otherGroup, k.sharing t other = .ok otherGroup →
          otherGroup = group ∨ otherGroup.Disjoint group) ∧
        (IsStoreGroup k t d group ↔ ∀ h ∈ k.repositories, StoreAt t d h →
          h.layout.commonDir = handle.layout.commonDir) ∧
        (t.Unlinked handle.layout.commonDir → (IsStoreGroup k t d group ↔
          ∀ h ∈ k.repositories, StoreAt t d h → t.Unlinked h.layout.commonDir)) := by
  intro k root id handle hrequire
  have hlocated : k.LocatedIn t := locatedIn_of_run stores settings bus hdisk htree
  have hmem := mem_repositories_of_require hrequire
  obtain ⟨d, hd⟩ := hlocated.exists_storeAt hmem
  have hgroup := hlocated.sharing_eq hrequire
  have hstore : ∀ h, h.layout.commonDir = handle.layout.commonDir → StoreAt t d h := by
    intro h heq
    rw [StoreAt, heq]
    exact hd
  have hiff : IsStoreGroup k t d
      (k.repositories.filter fun h => h.layout.commonDir = handle.layout.commonDir) ↔
        ∀ h ∈ k.repositories, StoreAt t d h →
          h.layout.commonDir = handle.layout.commonDir := by
    simp only [IsStoreGroup, List.mem_filter, decide_eq_true_eq]
    exact ⟨fun hexact h hh hat => ((hexact h).2 ⟨hh, hat⟩).2,
      fun hone h => and_congr_right fun hh => ⟨hstore h, hone h hh⟩⟩
  refine ⟨_, d, hgroup, hd, List.mem_filter.2 ⟨hmem, decide_eq_true rfl⟩, rfl, fun h hh => ?_,
    fun other otherGroup => hlocated.sharing_eq_or_disjoint hgroup, hiff, fun hunlinked => ?_⟩
  · have heq := (List.mem_filter.1 hh).2
    exact hstore h (of_decide_eq_true heq)
  · rw [hiff]
    refine forall₃_congr fun h _ hat => ?_
    have hown := (FileTree.canonicalPath_eq_self_iff hd).2 hunlinked
    rw [← FileTree.canonicalPath_eq_self_iff hat, ← hown, eq_comm]

/-! ## A clone and a worktree -/

/-- The requests that register a clone and a worktree. -/
def cloneAndWorktree (t : FileTree) : List (World × Request) :=
  [(⟨t, .empty⟩, .register ⟨"/r"⟩), (⟨t, .empty⟩, .register ⟨"/w"⟩)]

/-- The tracker in which both are registered. -/
def bothTracked (t : FileTree) : Tracker :=
  (Run.of (onBus .standard ⟨.files, 64⟩ (.create 64)) (cloneAndWorktree t)).tracker

/-- The clone and the worktree name one directory without links, so both are in one group. -/
theorem sharing_groups_linkedWorktree :
    ∃ group d, (bothTracked linkedWorktree).sharing linkedWorktree ⟨"/r"⟩ = .ok group ∧
      group.map Handle.root = [⟨"/r"⟩, ⟨"/w"⟩] ∧
      IsStoreGroup (bothTracked linkedWorktree) linkedWorktree d group := by
  have htree : ∀ a ∈ cloneAndWorktree linkedWorktree, a.1.tree = linkedWorktree := by
    simp [cloneAndWorktree]
  let l : Layout := ⟨⟨"/r"⟩, ⟨"/r/.git"⟩, ⟨"/r/.git"⟩⟩
  have hrequire : (bothTracked linkedWorktree).require linkedWorktree ⟨"/r"⟩ =
      .ok (0, ⟨l, .files, .unrestricted, .stale l⟩) := by
    decide +kernel
  have hone : ∀ h ∈ (bothTracked linkedWorktree).repositories,
      h.layout.commonDir = ⟨"/r/.git"⟩ := by
    decide +kernel
  obtain ⟨group, d, hgroup, -, -, hfilter, -, -, hexact, -⟩ :=
    sharing_groups .standard ⟨.files, 64⟩ (.create 64) _ rfl htree _ _ _ hrequire
  refine ⟨group, d, hgroup, ?_, hexact.2 fun h hh _ => hone h hh⟩
  rw [hfilter]
  decide +kernel

/-- A clone whose metadata lies beside it, where its marker leads through a link, and a worktree whose
files name that directory. -/
def linkedMarker : FileTree where
  entries := [(["g"], .directory), (["g", "worktrees"], .directory),
    (["g", "worktrees", "w"], .directory),
    (["g", "worktrees", "w", "commondir"], .file "../..\n".toUTF8),
    (["r"], .directory), (["r", ".git"], .link "../g"),
    (["w"], .directory), (["w", ".git"], .file "gitdir: /g/worktrees/w\n".toUTF8)]
  workingDirectory := []
  named := by decide

/-- The clone and the worktree have their references in one directory, and each is in a group of its
own. -/
theorem worktree_missed :
    ((bothTracked linkedMarker).repositories.map Handle.root = [⟨"/r"⟩, ⟨"/w"⟩]) ∧
      (∀ h ∈ (bothTracked linkedMarker).repositories,
        linkedMarker.canonicalPath h.layout.commonDir = .ok ⟨"/g"⟩) ∧
      ((bothTracked linkedMarker).sharing linkedMarker ⟨"/r"⟩).map (List.map Handle.root) =
        .ok [⟨"/r"⟩] ∧
      ((bothTracked linkedMarker).sharing linkedMarker ⟨"/w"⟩).map (List.map Handle.root) =
        .ok [⟨"/w"⟩] := by
  refine ⟨?_, ?_, ?_, ?_⟩
  · decide +kernel
  · decide +kernel
  · decide +kernel
  · decide +kernel

end Tracker

end WorktreeTracker
