import WorktreeTracker.Proofs.Results
import WorktreeTracker.Proofs.Text
import WorktreeTracker.Repository.Reader

/-!
# References that worktrees share

Two worktrees of one repository have their own HEAD and a few references of their own, all outside
the branches. So they list the same branches, unless a symbolic branch leads to a reference of the
worktree.
-/

namespace WorktreeTracker

/-! ## References of the shared directory -/

namespace RefDatabase

variable {t : FileTree} {gitDir gitDir' commonDir : Path}

/-- Local branches belong to no worktree. -/
theorem isPerWorktree_of_heads {name : String} (h : Text.startsWith RefName.heads name = true) :
    isPerWorktree name = false := by
  obtain ⟨rest, hrest⟩ := Option.isSome_iff_exists.1 h
  rw [Text.after?_eq_some_iff.1 hrest]
  have hchars : (RefName.heads ++ rest).toList =
      ['r', 'e', 'f', 's', '/', 'h', 'e', 'a', 'd', 's', '/'] ++ rest.toList := by
    simp [RefName.heads]
  simp [isPerWorktree, Text.startsWith, Text.after?, Text.charsAfter?, hchars]

/-- Remote-tracking branches belong to no worktree. -/
theorem isPerWorktree_of_remotes {name : String}
    (h : Text.startsWith RefName.remotes name = true) : isPerWorktree name = false := by
  obtain ⟨rest, hrest⟩ := Option.isSome_iff_exists.1 h
  rw [Text.after?_eq_some_iff.1 hrest]
  have hchars : (RefName.remotes ++ rest).toList =
      ['r', 'e', 'f', 's', '/', 'r', 'e', 'm', 'o', 't', 'e', 's', '/'] ++ rest.toList := by
    simp [RefName.remotes]
  simp [isPerWorktree, Text.startsWith, Text.after?, Text.charsAfter?, hchars]

/-- A loose reference that belongs to no worktree is the same in all of them. -/
theorem looseLookup_of_shared {name : String} (h : isPerWorktree name = false) :
    looseLookup t gitDir commonDir name = looseLookup t gitDir' commonDir name := by
  unfold looseLookup
  rw [h]
  rfl

/-- The loose references among those that are listed. -/
def looseRefs (t : FileTree) (gitDir commonDir : Path) : List (String × RefTarget) :=
  (looseNames t commonDir).filterMap fun name =>
    (looseLookup t gitDir commonDir name).toOption.map (name, ·)

/-- The reference of a packed entry, unless a loose one of the name hides it. -/
def packedRef? (loose : List (String × RefTarget)) (entry : List Char × Oid × Option Oid) :
    Option (String × RefTarget) :=
  (Text.decode? entry.1).bind fun name =>
    if loose.all fun e => e.1 ≠ name then some (name, .direct entry.2.1 entry.2.2) else none

theorem all_eq (t : FileTree) (gitDir commonDir : Path) :
    all t gitDir commonDir = (packedTable t commonDir).map fun packed =>
      looseRefs t gitDir commonDir ++
        packed.entries.filterMap (packedRef? (looseRefs t gitDir commonDir)) := by
  unfold all
  cases packedTable t commonDir with
  | error e => rfl
  | ok packed =>
    refine congrArg (fun rest => Except.ok (looseRefs t gitDir commonDir ++ rest)) ?_
    refine List.filterMap_congr fun entry _ => ?_
    obtain ⟨bytes, oid, peeled⟩ := entry
    unfold packedRef? looseRefs
    dsimp only
    cases Text.decode? bytes with
    | none => rfl
    | some name =>
      simp only [Option.bind_eq_bind, Option.bind_some, guard]
      split <;> rfl

/-- The loose references that belong to no worktree are the same in all of them. -/
theorem filter_looseRefs (t : FileTree) (gitDir gitDir' commonDir : Path) :
    ((looseRefs t gitDir commonDir).filter fun e => !isPerWorktree e.1) =
      (looseRefs t gitDir' commonDir).filter fun e => !isPerWorktree e.1 := by
  unfold looseRefs
  rw [List.filter_filterMap, List.filter_filterMap]
  refine List.filterMap_congr fun name _ => ?_
  cases hname : isPerWorktree name with
  | false => rw [looseLookup_of_shared hname]
  | true =>
    have hnone (x : Except LookupFailure RefTarget) :
        (x.toOption.map (name, ·)).filter (fun e => !isPerWorktree e.1) = none := by
      cases x with
      | error e => rfl
      | ok target => simp [Except.toOption, hname]
    rw [hnone, hnone]

/-- Whether a packed reference of no worktree is hidden depends on the loose ones of no worktree. -/
theorem filter_packedRef? {loose loose' : List (String × RefTarget)}
    (h : (loose.filter fun e => !isPerWorktree e.1) = loose'.filter fun e => !isPerWorktree e.1)
    (entry : List Char × Oid × Option Oid) :
    (packedRef? loose entry).filter (fun e => !isPerWorktree e.1) =
      (packedRef? loose' entry).filter fun e => !isPerWorktree e.1 := by
  unfold packedRef?
  cases Text.decode? entry.1 with
  | none => rfl
  | some name =>
    dsimp only [Option.bind_some]
    cases hname : isPerWorktree name with
    | true =>
      have hnone (c : Bool) : (if c then some (name, RefTarget.direct entry.2.1 entry.2.2)
          else none).filter (fun e => !isPerWorktree e.1) = none := by
        cases c <;> simp [hname]
      rw [hnone, hnone]
    | false =>
      -- a loose reference of the name belongs to no worktree
      have hall (loose : List (String × RefTarget)) : (loose.all fun e => decide (e.1 ≠ name)) =
          (loose.filter fun e => !isPerWorktree e.1).all fun e => decide (e.1 ≠ name) := by
        rw [List.all_filter]
        refine congrArg (List.all loose) (funext fun e => ?_)
        by_cases he : e.1 = name
        · simp [he, hname]
        · simp [he]
      rw [hall loose, hall loose', h]

/-- The references of a repository that belong to no worktree are the same in all of them. -/
theorem filter_all {refs refs' : List (String × RefTarget)}
    (h : all t gitDir commonDir = .ok refs) (h' : all t gitDir' commonDir = .ok refs') :
    (refs.filter fun e => !isPerWorktree e.1) = refs'.filter fun e => !isPerWorktree e.1 := by
  rw [all_eq] at h h'
  obtain ⟨packed, hpacked, rfl⟩ := map_eq_ok.1 h
  obtain ⟨packed', hpacked', rfl⟩ := map_eq_ok.1 h'
  obtain rfl := Except.ok.inj (hpacked.symm.trans hpacked')
  have hloose := filter_looseRefs t gitDir gitDir' commonDir
  rw [List.filter_append, List.filter_append, hloose, List.filter_filterMap,
    List.filter_filterMap]
  exact congrArg _ (List.filterMap_congr fun entry _ => filter_packedRef? hloose entry)

end RefDatabase

/-! ## Branches of the shared directory -/

namespace GitLibrary

/-- What is made of the branches is the same for two libraries that list the same ones, when the same
is made of each. -/
theorem collect_congr {α : Type} {g g' : GitLibrary} {kind : BranchKind}
    {make make' : FoundRef → Except ReadError (Option α)}
    (hbranches : g.branches kind = g'.branches kind)
    (hmake : ∀ entries, g.branches kind = .ok entries → ∀ found, .ok found ∈ entries →
      make found = make' found) :
    g.collect kind make = g'.collect kind make' := by
  unfold collect
  rw [← hbranches]
  cases hentries : g.branches kind with
  | error problem => rfl
  | ok entries =>
    have hmapped : (entries.mapM fun entry => entry.mapError ReadError.internal >>= make) =
        entries.mapM fun entry => entry.mapError ReadError.internal >>= make' := by
      refine mapM_congr fun entry hentry => ?_
      cases entry with
      | error problem => rfl
      | ok found => exact hmake entries hentries found hentry
    exact congrArg (· >>= fun found => .ok (found.filterMap id)) hmapped

end GitLibrary

namespace RepositoryReader

variable {t : FileTree} {r r' : OpenRepository} {root root' : Path}

/-- The settings of an opened repository are those in its shared directory. -/
theorem settings_of_openAt (h : openAt t root = .ok r) :
    GitConfig.load t (r.commonDir / "config") = .ok r.settings := by
  obtain ⟨_, -, h⟩ := bind_eq_ok.1 (mapError_eq_ok.1 h)
  obtain ⟨located, -, h⟩ := bind_eq_ok.1 h
  obtain ⟨settings, hload, h⟩ := bind_eq_ok.1 h
  obtain ⟨⟨⟩, -, h⟩ := bind_eq_ok.1 h
  obtain ⟨bare, -, h⟩ := bind_eq_ok.1 h
  split at h
  next => cases h
  next =>
    obtain ⟨workDir, -, h⟩ := bind_eq_ok.1 h
    obtain rfl := Except.ok.inj h
    exact mapError_eq_ok.1 hload

/-- The branches are references whose names start as asked for. -/
theorem mem_branches {kind : BranchKind} {entries : List (Except String FoundRef)}
    (h : branches t r kind = .ok entries) {found : FoundRef} :
    .ok found ∈ entries ↔ ∃ refs, RefDatabase.all t r.gitDir r.commonDir = .ok refs ∧
      ∃ name, found.name = some name ∧ (name, found.target) ∈ refs ∧
        Text.startsWith kind.lead name = true := by
  obtain ⟨names, hnames, rfl⟩ := map_eq_ok.1 (mapError_eq_ok.1 h)
  obtain ⟨refs, hrefs, rfl⟩ := map_eq_ok.1 hnames
  rw [List.mem_map]
  constructor
  · rintro ⟨e, he, heq⟩
    obtain rfl := Except.ok.inj heq
    obtain ⟨hmem, hstarts⟩ := List.mem_filter.1 he
    exact ⟨refs, hrefs, e.1, rfl, hmem, hstarts⟩
  · rintro ⟨others, hothers, name, hname, hmem, hstarts⟩
    obtain rfl := Except.ok.inj (hrefs.symm.trans hothers)
    refine ⟨(name, found.target), List.mem_filter.2 ⟨hmem, hstarts⟩, ?_⟩
    rw [← hname]

/-- Branches belong to no worktree. -/
theorem isPerWorktree_of_kind {kind : BranchKind} {name : String}
    (h : Text.startsWith kind.lead name = true) : RefDatabase.isPerWorktree name = false := by
  cases kind with
  | own => exact RefDatabase.isPerWorktree_of_heads h
  | tracked => exact RefDatabase.isPerWorktree_of_remotes h

/-- The branches are the same for two worktrees that share their directory. -/
theorem branches_congr (hcommon : r.commonDir = r'.commonDir) (kind : BranchKind) :
    branches t r kind = branches t r' kind := by
  have hlisted : listed t r kind.lead = listed t r' kind.lead := by
    unfold listed
    rw [← hcommon]
    cases hpacked : RefDatabase.packedTable t r.commonDir with
    | error failure =>
      rw [RefDatabase.all_eq, RefDatabase.all_eq, hpacked]
      rfl
    | ok packed =>
      have hall (gitDir : Path) : ∃ refs, RefDatabase.all t gitDir r.commonDir = .ok refs := by
        rw [RefDatabase.all_eq, hpacked]
        exact ⟨_, rfl⟩
      obtain ⟨refs, h⟩ := hall r.gitDir
      obtain ⟨refs', h'⟩ := hall r'.gitDir
      -- the branches are among the references that belong to no worktree
      have hshared (refs : List (String × RefTarget)) :
          (refs.filter fun e => Text.startsWith kind.lead e.1) =
            (refs.filter fun e => !RefDatabase.isPerWorktree e.1).filter
              fun e => Text.startsWith kind.lead e.1 := by
        rw [List.filter_filter]
        refine List.filter_congr fun e _ => ?_
        cases hstarts : Text.startsWith kind.lead e.1 with
        | false => rfl
        | true => rw [isPerWorktree_of_kind hstarts]; rfl
      rw [h, h']
      change Except.ok _ = Except.ok _
      rw [hshared refs, hshared refs', RefDatabase.filter_all h h']
  unfold branches
  rw [hlisted]

/-- Two worktrees see one repository: they share its directory, and a local branch leads both to the
same commit. That can fail for a symbolic branch alone. -/
structure SeesSame (t : FileTree) (r r' : OpenRepository) : Prop where
  /-- The shared directory is the same. -/
  commonDir : r.commonDir = r'.commonDir
  /-- A local branch leads both to the same commit. -/
  peel : ∀ refs, RefDatabase.all t r.gitDir r.commonDir = .ok refs → ∀ e ∈ refs,
    Text.startsWith RefName.heads e.1 = true →
      RefDatabase.peelToCommit t r.gitDir r.commonDir e.2 =
        RefDatabase.peelToCommit t r'.gitDir r'.commonDir e.2

/-- A reference that names no other one leads every worktree to the same commit. -/
theorem peelToCommit_congr (hcommon : r.commonDir = r'.commonDir) {target : RefTarget}
    (h : target.symbolic? = none) :
    RefDatabase.peelToCommit t r.gitDir r.commonDir target =
      RefDatabase.peelToCommit t r'.gitDir r'.commonDir target := by
  unfold RefDatabase.peelToCommit
  rw [hcommon]
  cases target with
  | direct oid peeled => rfl
  | symbolic name =>
    have hnone (gitDir : Path) : RefDatabase.resolveTarget t gitDir r'.commonDir (.symbolic name) =
        .error .invalidSpec := by
      rw [RefDatabase.resolveTarget, show Text.decode? name = none from h]
      rfl
    rw [hnone, hnone]

/-- Two worktrees that see one repository list the same local branches. -/
theorem SeesSame.localBranches (h : SeesSame t r r') (hsettings : r.settings = r'.settings) :
    localBranches t r = localBranches t r' := by
  refine GitLibrary.collect_congr (branches_congr h.commonDir .own) fun entries hentries found
    hfound => ?_
  obtain ⟨refs, hrefs, name, -, hmem, hstarts⟩ := (mem_branches hentries).1 hfound
  have hfollow (name : String) : (library t r).follow name found.target =
      (library t r').follow name found.target :=
    congrArg (Except.mapError _) (h.peel refs hrefs _ hmem hstarts)
  have htracking (name : String) : (library t r).tracking name = (library t r').tracking name :=
    congrArg (fun settings => (answers settings).tracking name) hsettings
  unfold GitLibrary.localBranch
  simp only [hfollow, htracking]

/-- Two worktrees with one shared directory list the same remote-tracking branches: those are not
symbolic. -/
theorem trackedBranches_congr (hcommon : r.commonDir = r'.commonDir)
    (hsettings : r.settings = r'.settings) : trackedBranches t r = trackedBranches t r' := by
  refine GitLibrary.collect_congr (branches_congr hcommon .tracked) fun entries _ found _ => ?_
  have hname : (library t r).trackedName? found = (library t r').trackedName? found := by
    unfold GitLibrary.trackedName?
    change _ = (guard _ >>= fun _ => found.name >>= fun name =>
      RemoteTable.owner? r'.settings name >>= _)
    rw [← hsettings]
    rfl
  unfold GitLibrary.trackedBranch
  rw [hname]
  cases htracked : (library t r').trackedName? found with
  | none => rfl
  | some tracked =>
    obtain ⟨⟨⟩, hdirect, -⟩ := Option.bind_eq_some_iff.1 htracked
    have hsymbolic : found.target.symbolic? = none := by
      by_contra hsome
      rw [guard, if_neg (by simpa using hsome)] at hdirect
      cases hdirect
    have hfollow : (library t r).follow tracked.1 found.target =
        (library t r').follow tracked.1 found.target :=
      congrArg (Except.mapError _) (peelToCommit_congr hcommon hsymbolic)
    dsimp only
    rw [hfollow]

/-- Two worktrees that see one repository list the same branches and remotes. -/
theorem SeesSame.listing (h : SeesSame t r r') (hopen : openAt t root = .ok r)
    (hopen' : openAt t root' = .ok r') : listing t r = listing t r' := by
  have hsettings : r.settings = r'.settings := by
    have hload := settings_of_openAt hopen
    rw [h.commonDir, settings_of_openAt hopen'] at hload
    exact (Except.ok.inj hload).symm
  have hlocals := h.localBranches hsettings
  have htracked := trackedBranches_congr (t := t) h.commonDir hsettings
  have hremotes : remotes r = remotes r' := congrArg (fun settings => (answers settings).remotes)
    hsettings
  change (RepositoryReader.localBranches t r >>= fun locals => trackedBranches t r >>= fun tracked =>
    remotes r >>= fun remotes => Except.ok (Listing.mk locals tracked remotes)) = _
  rw [hlocals, htracked, hremotes]
  rfl

end RepositoryReader

end WorktreeTracker
