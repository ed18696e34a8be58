import WorktreeTracker.Proofs.Locate
import WorktreeTracker.Proofs.MemoryStore.Refresh
import WorktreeTracker.Proofs.PlainReader.Listing
import WorktreeTracker.Proofs.Repository.Sharing
import WorktreeTracker.Proofs.Tracker.Origin

/-!
# Roots that share their references

The roots of a primary clone and of its worktrees are tracked through handles of their own. Their
refreshes list the same branches, but a handle keeps the store and the remotes that the settings of
the repository named when its root was registered. So the collections agree when the settings were
the same at both registrations, and through one store exactly when both handles leave in the same
remotes of those that a branch is listed for.
-/

namespace WorktreeTracker

/-! ## One listing for two roots -/

/-- The listing of the plain reader is read from the shared directory alone. -/
theorem PlainReader.listing_of_commonDir (t : FileTree) {l l' : Layout}
    (h : l.commonDir = l'.commonDir) : listing t l = listing t l' := by
  obtain ⟨workDir, gitDir, commonDir⟩ := l
  obtain ⟨workDir', gitDir', commonDir'⟩ := l'
  obtain rfl : commonDir = commonDir' := h
  rfl

/-- The listing through an opened repository. -/
theorem listing_of_openAt {w : World} {l : Layout} {r : OpenRepository} {listing : Listing}
    (hopen : RepositoryReader.openAt w.tree l.workDir = .ok r)
    (hread : (StoreKind.libgit.readRefs w l).1 = .ok listing) :
    RepositoryReader.listing w.tree r = .ok listing := by
  obtain ⟨opened, hopened, hread⟩ := bind_eq_ok.1 hread
  unfold openLocated at hopened
  split at hopened
  next => cases hopened
  next =>
    obtain rfl := Except.ok.inj (hopen.symm.trans (mapError_eq_ok.1 hopened))
    exact mapError_eq_ok.1 hread

namespace Tracker

/-- Two handles of a tracker lead to one repository. -/
structure Shares (t : FileTree) (backend : StoreKind) (a b : Handle) : Prop where
  /-- The shared directory is the same. -/
  commonDir : a.layout.commonDir.same b.layout.commonDir = true
  /-- A shared directory that was made up in memory is written in one way to be read from disk. -/
  written : backend = .memory → a.store = .files → a.layout.commonDir = b.layout.commonDir
  /-- The repositories that are opened share their directory, and every local branch leads both to
  the same commit. -/
  opened : a.store = .libgit → ∃ r r', RepositoryReader.openAt t a.layout.workDir = .ok r ∧
    RepositoryReader.openAt t b.layout.workDir = .ok r' ∧ RepositoryReader.SeesSame t r r'

/-- Handles that lead to one repository have one listing in each store. -/
theorem Shares.listing_eq {stores : StoreRegistry} {backend : StoreKind} {w wa wb : World}
    {root root' : Path} {read read' : Option RepositorySettings} {a b : Handle}
    {listing listing' : Listing} (h : Shares w.tree backend a b)
    (ha : ReadFor stores backend wa root read a) (hb : ReadFor stores backend wb root' read' b)
    (hread : (a.store.readRefs w a.layout).1 = .ok listing)
    (hread' : (a.store.readRefs w b.layout).1 = .ok listing') : listing = listing' := by
  obtain ⟨hsame, hwritten, hopened⟩ := h
  generalize a.store = kind at *
  cases kind with
  | memory =>
    have hshared : w.memory.sharedOf a.layout.commonDir = w.memory.sharedOf b.layout.commonDir := by
      unfold MemoryStore.sharedOf
      rw [of_decide_eq_true hsame]
    rw [listing_of_readRefs hread, listing_of_readRefs hread', hshared]
  | files =>
    have hcommon : a.layout.commonDir = b.layout.commonDir := by
      by_cases hmemory : backend = .memory
      · exact hwritten hmemory rfl
      · have hdisk : backend.isConfigurable = true := by
          cases backend with
          | memory => exact absurd rfl hmemory
          | libgit => rfl
          | files => rfl
        have hlocated := ha.located
        have hlocated' := hb.located
        rw [locate_of_configurable hdisk, mapError_eq_ok] at hlocated hlocated'
        exact commonDir_eq_of_same hlocated hlocated' hsame
    have hlisting := mapError_eq_ok.1 hread
    rw [PlainReader.listing_of_commonDir w.tree hcommon] at hlisting
    exact Except.ok.inj (hlisting.symm.trans (mapError_eq_ok.1 hread'))
  | libgit =>
    obtain ⟨r, r', hopen, hopen', hsees⟩ := hopened rfl
    have heq := hsees.listing hopen hopen'
    rw [listing_of_openAt hopen hread, listing_of_openAt hopen' hread'] at heq
    exact Except.ok.inj heq

/-! ## Collections of two roots -/

variable (stores : StoreRegistry) (settings : TrackerSettings) (bus : EventBus)

/-- The listing that a successful update read. -/
theorem Reads.listing {k : Tracker} {w : World} {u : Update} {handle : Handle} {s : Snapshot}
    (h : Reads k w u) (hhandle : k.handle? u.handle = some handle) (hresult : u.result = .ok s) :
    ∃ listing, (handle.store.readRefs w handle.layout).1 = .ok listing ∧
      Catalog.build handle.options handle.layout.workDir listing = .ok s.branches := by
  obtain ⟨found, w', hfound, -, hread, heq⟩ := h
  obtain rfl := Option.some.inj (hhandle.symm.trans hfound)
  obtain ⟨listing, hlisting, hbuild⟩ := listing_of_readSnapshot (heq.symm.trans hresult)
  rw [StoreKind.readRefs_of_read hread] at hlisting
  exact ⟨listing, hlisting, hbuild⟩

/-- Two successful updates of a run, with nothing changed between them, of roots that see one
repository. The settings of the repository that were read when the roots were registered decide:
when they were the same, the updates give the same branches; and through one store they do so
exactly when the handles leave in the same ones of the configured remotes that a branch is listed
for. -/
theorem sharing_branches (asked : List (World × Request)) :
    let r := Run.of (onBus stores settings bus) asked
    ∀ first ∈ r.past, ∀ second ∈ r.past, first.world.Read second.world →
      ∀ u ∈ first.answer.updates, ∀ v ∈ second.answer.updates, ∀ a b s s',
        r.tracker.handle? u.handle = some a → r.tracker.handle? v.handle = some b →
        u.result = .ok s → v.result = .ok s' →
        Shares first.world.tree settings.backend a b →
        ∃ read read', ReadIn asked stores settings.backend read a ∧
          ReadIn asked stores settings.backend read' b ∧
          (read = read' → s.branches = s'.branches) ∧
          (a.store = b.store → ∃ listing, (a.store.readRefs first.world a.layout).1 = .ok listing ∧
            (s.branches = s'.branches ↔ ∀ e ∈ listing.tracked,
              e.remote ∈ listing.remotes.map Remote.name →
                Catalog.isAllowed a.options e.remote = Catalog.isAllowed b.options e.remote)) := by
  intro r first hfirst second hsecond hworlds u hu v hv a b s s' ha hb hs hs' hshares
  obtain ⟨-, -, horigin⟩ := origin_of_run stores settings bus asked
  obtain ⟨read, hread⟩ := horigin _ a ha
  obtain ⟨read', hread'⟩ := horigin _ b hb
  obtain ⟨w, root, hasked, hfor⟩ := id hread
  obtain ⟨w', root', hasked', hfor'⟩ := id hread'
  have hreads := reads_of_run stores settings bus asked
  obtain ⟨listing, hlisting, hbuild⟩ := (hreads first hfirst u hu).listing ha hs
  obtain ⟨listing', hlisting', hbuild'⟩ := (hreads second hsecond v hv).listing hb hs'
  rw [StoreKind.readRefs_of_read hworlds] at hlisting'
  -- through one store both updates read one listing
  have hiff (hstore : a.store = b.store) : s.branches = s'.branches ↔ ∀ e ∈ listing.tracked,
      e.remote ∈ listing.remotes.map Remote.name →
        Catalog.isAllowed a.options e.remote = Catalog.isAllowed b.options e.remote := by
    rw [← hstore] at hlisting'
    obtain rfl := hshares.listing_eq hfor hfor' hlisting hlisting'
    exact Catalog.build_eq_iff hbuild hbuild'
  refine ⟨read, read', hread, hread', ?_, fun hstore => ⟨listing, hlisting, hiff hstore⟩⟩
  rintro rfl
  refine (hiff (hfor.store.trans hfor'.store.symm)).2 fun e _ _ => ?_
  rw [hfor.options, hfor'.options]

/-! ## A clone and its worktree -/

/-- A clone with a branch of its remote, and a worktree of it. -/
def cloneWithWorktree : FileTree :=
  let file (t : FileTree) (place : Location) (text : String) := t.place place (.file text.toUTF8)
  PlainReader.withRef
    (file (file (file (file (file .empty ["r", ".git", "HEAD"] "ref: refs/heads/main\n")
      ["r", ".git", "config"] "[remote \"origin\"]\n\turl = /srv/r.git\n")
      ["r", ".git", "worktrees", "w", "HEAD"] "ref: refs/heads/topic\n")
      ["r", ".git", "worktrees", "w", "commondir"] "../..\n")
      ["w", ".git"] "gitdir: /r/.git/worktrees/w\n")
    ["refs", "remotes", "origin", "main"] 1

/-- The same with settings that leave out the remote. -/
def narrowedClone : FileTree :=
  cloneWithWorktree.place ["r", ".git", "worktrack", "config.toml"]
    (.file "remotes = [\"upstream\"]\n".toUTF8)

/-- The clone is registered over the files `t` and its worktree over the files `t'`, and then both
are refreshed. -/
def refreshBoth (t t' : FileTree) : Run :=
  .of (onBus .standard ⟨.files, 64⟩ (.create 64))
    [(⟨t, .empty⟩, .register ⟨"/r"⟩), (⟨t', .empty⟩, .register ⟨"/w"⟩),
      (⟨t', .empty⟩, .refresh ⟨"/r"⟩), (⟨t', .empty⟩, .refresh ⟨"/w"⟩)]

/-- What the handles of a run keep, and the names of the remote-tracking branches that each of its
requests read, the newest first. -/
def Run.summary (r : Run) : List (Layout × StoreKind × CatalogOptions) ×
    List (List (HandleId × Option (List String))) :=
  (r.tracker.handles.map fun handle => (handle.layout, handle.store, handle.options),
    r.past.map fun step => step.answer.updates.map fun u => (u.handle,
      u.result.toOption.map fun s => s.branches.tracked.keys.map RemoteBranch.display))

/-- With the settings unchanged the clone and its worktree have the same branches. -/
theorem sharing_branches_worktree :
    ∃ u v s s', (refreshBoth cloneWithWorktree cloneWithWorktree).updates = [v, u] ∧
      u.handle = 0 ∧ v.handle = 1 ∧ u.result = .ok s ∧ v.result = .ok s' ∧
        s.branches = s'.branches := by
  have hsummary : (refreshBoth cloneWithWorktree cloneWithWorktree).summary =
      ([(⟨⟨"/r"⟩, ⟨"/r/.git"⟩, ⟨"/r/.git"⟩⟩, .files, ⟨none⟩),
        (⟨⟨"/w"⟩, ⟨"/r/.git/worktrees/w"⟩, ⟨"/r/.git"⟩⟩, .files, ⟨none⟩)],
        [[(1, some ["origin/main"])], [(0, some ["origin/main"])], [], []]) := by
    decide +kernel
  have hworlds : (refreshBoth cloneWithWorktree cloneWithWorktree).past.map Step.world =
      List.replicate 4 ⟨cloneWithWorktree, .empty⟩ := rfl
  have hsharing := sharing_branches .standard ⟨.files, 64⟩ (.create 64)
    [(⟨cloneWithWorktree, .empty⟩, .register ⟨"/r"⟩),
      (⟨cloneWithWorktree, .empty⟩, .register ⟨"/w"⟩),
      (⟨cloneWithWorktree, .empty⟩, .refresh ⟨"/r"⟩),
      (⟨cloneWithWorktree, .empty⟩, .refresh ⟨"/w"⟩)]
  rw [show Run.of (onBus .standard ⟨.files, 64⟩ (.create 64)) _ =
    refreshBoth cloneWithWorktree cloneWithWorktree from rfl] at hsharing
  generalize refreshBoth cloneWithWorktree cloneWithWorktree = r at *
  simp only [Run.summary, Prod.mk.injEq, List.map_eq_cons_iff, List.map_eq_nil_iff,
    Option.map_eq_some_iff] at hsummary
  obtain ⟨⟨a, _, hhandles, ⟨ha, hastore, haoptions⟩, b, _, rfl, ⟨hb, hbstore, hboptions⟩, rfl⟩,
    second, _, hpast, ⟨v, _, hsecond, ⟨hv, s', hs', -⟩, rfl⟩,
    first, _, rfl, ⟨u, _, hfirst, ⟨hu, s, hs, -⟩, rfl⟩,
    other, _, rfl, hother, last, _, rfl, hlast, rfl⟩ := hsummary
  rw [toOption_eq_some_iff] at hs hs'
  refine ⟨u, v, s, s', ?_, hu, hv, hs, hs', ?_⟩
  · simp [Run.updates, hpast, hsecond, hfirst, hother, hlast]
  · have hworld : first.world = second.world := by
      simp only [hpast, List.map_cons, List.replicate, List.cons.injEq] at hworlds
      rw [hworlds.1, hworlds.2.1]
    have ha' : r.tracker.handle? u.handle = some a := by
      rw [handle?, hhandles, hu]
      rfl
    have hb' : r.tracker.handle? v.handle = some b := by
      rw [handle?, hhandles, hv]
      rfl
    have hshares : Shares first.world.tree .files a b := by
      constructor
      case commonDir =>
        rw [ha, hb]
        decide
      case written => rintro ⟨⟩
      case opened =>
        rw [hastore]
        rintro ⟨⟩
    obtain ⟨-, -, -, -, -, hiff⟩ := hsharing first (by simp [hpast]) second (by simp [hpast])
      (hworld ▸ .refl _) u (by simp [hfirst]) v (by simp [hsecond]) a b s s' ha' hb' hs hs'
      hshares
    obtain ⟨listing, -, hiff⟩ := hiff (hastore.trans hbstore.symm)
    refine hiff.2 fun e _ _ => ?_
    rw [haoptions, hboptions]

/-- Settings that are written between the two registrations count for the worktree alone. -/
theorem worktree_narrowed_alone :
    (refreshBoth cloneWithWorktree narrowedClone).summary =
      ([(⟨⟨"/r"⟩, ⟨"/r/.git"⟩, ⟨"/r/.git"⟩⟩, .files, ⟨none⟩),
        (⟨⟨"/w"⟩, ⟨"/r/.git/worktrees/w"⟩, ⟨"/r/.git"⟩⟩, .files, ⟨some ["upstream"]⟩)],
        [[(1, some [])], [(0, some ["origin/main"])], [], []]) := by
  decide +kernel

end Tracker

end WorktreeTracker
