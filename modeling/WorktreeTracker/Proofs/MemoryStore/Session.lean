import WorktreeTracker.Proofs.MemoryStore.Refresh
import WorktreeTracker.Proofs.MemoryStore.Told
import WorktreeTracker.Proofs.Tracker.Origin

/-!
# Branches are neither lost nor made up

A tracker is asked for registrations and refreshes while fixture calls change the store in memory
and the files change. Whenever a root is refreshed through the store in memory, the collection of
its snapshot is told by the calls alone, by what they did to its shared directory: which local
branches there are, their commits, the remote-tracking branches of the remotes that count and what
tracks them.
-/

namespace WorktreeTracker

open Change (lastOid upstream trackedOid hasRemote)

/-! ## What is listed -/

namespace SharedRefs

variable (r : SharedRefs)

/-- Without branches listed besides, a local branch is listed as it is kept. -/
theorem find?_listing_locals (hextra : r.extra = []) (b : BranchName) :
    (r.listing.locals.find? fun e => Catalog.localKey e = ⟨b⟩) =
      (r.locals.find? b).map fun kept => ⟨b, kept.1, kept.2⟩ := by
  have hkey (e : BranchName × Oid × Option Tracking) :
      decide (Catalog.localKey ⟨e.1, e.2.1, e.2.2⟩ = ⟨b⟩) = decide (e.1 = b) := by
    simp [Catalog.localKey]
  rw [listing, hextra, List.append_nil, List.find?_map]
  have hfound := OrderedMap.find?_entries r.locals b
  simp only [Function.comp_def, hkey, hfound, Option.map_map]

/-- A remote-tracking branch is listed as it is kept. -/
theorem find?_listing_tracked (branch : RemoteBranch) :
    (r.listing.tracked.find? fun e => Catalog.trackedKey e = branch).map RemoteRef.oid =
      r.tracked.find? branch := by
  have hfound : (r.tracked.entries.find? fun e => e.1 = branch) =
      (r.tracked.find? branch).map (branch, ·) := OrderedMap.find?_entries r.tracked branch
  rw [listing, List.find?_map, Option.map_map]
  change (r.tracked.entries.find? fun e => e.1 = branch).map Prod.snd = _
  rw [hfound, Option.map_map]
  exact congrFun Option.map_id _

end SharedRefs

/-! ## What a collection tells -/

/-- A collection is what the history of a shared directory tells, under the given settings. -/
structure Tells (options : CatalogOptions) (changes : List Change) (c : BranchCollection) :
    Prop where
  /-- A local branch has the commit that it was last given and did not lose since. -/
  commit : ∀ (name : String) (oid : Oid), c.localCommit? name = some oid ↔
    ∃ b, b.text = name ∧ lastOid changes b = some oid
  /-- The remote-tracking branches are those that were ever given a commit and whose remote is
  configured and left in by the settings, each with its last commit. -/
  tracked : ∀ (branch : RemoteBranch) (oid : Oid), c.tracked.find? branch = some oid ↔
    hasRemote changes branch.remote = true ∧ Catalog.isAllowed options branch.remote = true ∧
      trackedOid changes branch = some oid
  /-- A local branch tracks what it was last pushed to, if that is in the collection. -/
  tracking : ∀ (b : BranchName) (branch : RemoteBranch), c.tracking? ⟨b⟩ = some branch ↔
    upstream changes b = some ⟨branch.remote, branch.name⟩ ∧ c.tracked.contains branch = true

/-- The collection built from what is shared tells what the account of it tells. -/
theorem Account.tells {changes : List Change} {r : SharedRefs} (h : Account changes r)
    (hextra : r.extra = []) {options : CatalogOptions} {root : Path} {c : BranchCollection}
    (hbuild : Catalog.build options root r.listing = .ok c) : Tells options changes c := by
  have hlocals (b : BranchName) : c.locals.find? ⟨b⟩ =
      (lastOid changes b).map fun oid =>
        Catalog.localEntry c.tracked ⟨b, oid, upstream changes b⟩ := by
    rw [Catalog.find?_locals_of_build hbuild, r.find?_listing_locals hextra, h.locals]
    cases lastOid changes b <;> rfl
  constructor
  case commit =>
    intro name oid
    rw [BranchCollection.localCommit?_eq_some_iff_exists]
    refine exists_congr fun b => and_congr_right fun _ => ?_
    rw [hlocals]
    cases lastOid changes b <;> rfl
  case tracked =>
    intro branch oid
    rw [Catalog.find?_tracked_of_build hbuild, r.find?_listing_tracked, h.tracked]
    have hcounts : branch.remote ∈ Catalog.configured options r.listing.remotes ↔
        hasRemote changes branch.remote = true ∧ Catalog.isAllowed options branch.remote = true :=
      Catalog.mem_configured.trans (and_congr_left' (h.remotes branch.remote))
    rw [← and_assoc, ← hcounts]
    split
    next hin => rw [and_iff_right hin]
    next hout => simp [hout]
  case tracking =>
    intro b branch
    rw [BranchCollection.tracking?, hlocals]
    cases hoid : lastOid changes b with
    | none => simp [Change.upstream_eq_none hoid]
    | some oid =>
      rw [Option.map_some, Option.bind_some, Catalog.localEntry, Option.filter_eq_some_iff,
        Option.map_eq_some_iff]
      refine and_congr_left' ⟨?_, fun h => ⟨_, h, rfl⟩⟩
      rintro ⟨u, hu, rfl⟩
      exact hu

/-! ## Sessions -/

/-- What is shared in a directory has the account of its history after reads, too. -/
theorem MemoryStore.Accounted.account_of_read {w w' : World} {calls : List Call}
    (h : w.memory.Accounted calls) (hread : w.Read w') (dir : Path.Key) :
    Account (historyAt dir (Call.deeds calls)) (w'.memory.refsAt dir) := by
  rw [refsAt, hread.shared]
  exact h.account dir

theorem MemoryStore.Accounted.noExtra_of_read {w w' : World} {calls : List Call}
    (h : w.memory.Accounted calls) (hread : w.Read w') : w'.memory.NoExtra := by
  rw [NoExtra, hread.shared]
  exact h.noExtra

/-- Reads leave a store as the calls tell. -/
theorem MemoryStore.Accounted.of_read {w w' : World} {calls : List Call}
    (h : w.memory.Accounted calls) (hread : w.OnlyRead w') : w'.memory.Accounted calls where
  commits := hread.commits.trans h.commits
  worktree root := by
    rw [hread.worktrees]
    exact h.worktree root
  placed key worktree hfind := by
    rw [hread.worktrees] at hfind
    exact h.placed key worktree hfind
  account := h.account_of_read hread.toRead
  noExtra := h.noExtra_of_read hread.toRead

/-- What happens in a session. -/
inductive Occurrence where
  /-- A call changes the store in memory. -/
  | call (c : Call)
  /-- The files change. -/
  | files (t : FileTree)
  /-- The tracker is asked for something. -/
  | ask (request : Tracker.Request)

/-- Whether a branch is listed besides those kept by name. -/
def Occurrence.isRaw : Occurrence → Bool
  | .call c => c.isRaw
  | _ => false

/-- The call of an occurrence, if it is one. -/
def Occurrence.call? : Occurrence → Option Call
  | .call c => some c
  | _ => none

/-- The calls among what happens, the newest first. -/
def callsIn (occurrences : List Occurrence) : List Call :=
  occurrences.reverse.filterMap Occurrence.call?

theorem callsIn_concat (earlier : List Occurrence) (o : Occurrence) :
    callsIn (earlier ++ [o]) = o.call?.toList ++ callsIn earlier := by
  rw [callsIn, List.reverse_append, List.filterMap_append]
  cases o <;> rfl

/-- A tracker and the world it reads. -/
structure Session where
  /-- What the tracker was asked, each time in the world of that moment. -/
  asked : List (World × Tracker.Request)
  /-- The world now. -/
  world : World

namespace Session

/-- The session in which nothing happened to an empty store. -/
def start (t : FileTree) : Session := ⟨[], ⟨t, .empty⟩⟩

/-- The tracker of a session that began with the tracker `k`. -/
def tracker (k : Tracker) (s : Session) : Tracker := (Tracker.Run.of k s.asked).tracker

/-- The session after something happened. -/
def step (k : Tracker) (s : Session) : Occurrence → Session
  | .call c => { s with world := { s.world with memory := s.world.memory.perform c } }
  | .files t => { s with world := { s.world with tree := t } }
  | .ask request =>
    { s with
      asked := s.asked ++ [(s.world, request)]
      world := (s.tracker k).worldAfter s.world request }

/-- The session in which the given things happened in order. -/
def of (k : Tracker) (t : FileTree) (occurrences : List Occurrence) : Session :=
  occurrences.foldl (step k) (start t)

/-- Whatever happens, the store is as the calls tell. -/
theorem accounted_step (k : Tracker) {s : Session} {calls : List Call}
    (h : s.world.memory.Accounted calls) {o : Occurrence} (ho : o.isRaw = false) :
    (s.step k o).world.memory.Accounted (o.call?.toList ++ calls) := by
  cases o with
  | call c => exact h.perform ho
  | files t => exact h
  | ask request => exact h.of_read ((s.tracker k).worldAfter_read s.world request)

/-- In every session, the store is as the calls tell. -/
theorem accounted_of (k : Tracker) (t : FileTree) {occurrences : List Occurrence}
    (h : ∀ o ∈ occurrences, o.isRaw = false) :
    (of k t occurrences).world.memory.Accounted (callsIn occurrences) := by
  induction occurrences using List.reverseRecOn with
  | nil => exact MemoryStore.accounted_empty
  | append_singleton earlier o ih =>
    rw [of, List.foldl_concat, callsIn_concat]
    have hearlier := ih fun other hother => h other (List.mem_append_left _ hother)
    exact accounted_step k hearlier (h o (List.mem_append_right _ List.mem_cons_self))

/-- What the tracker was asked, it was asked in the world after what had happened before. -/
theorem exists_of_mem_asked {k : Tracker} {t : FileTree} {occurrences : List Occurrence} {w : World}
    {request : Tracker.Request} (h : (w, request) ∈ (of k t occurrences).asked) :
    ∃ earlier, earlier ++ [.ask request] <+: occurrences ∧ w = (of k t earlier).world := by
  induction occurrences using List.reverseRecOn with
  | nil => cases h
  | append_singleton before o ih =>
    rw [of, List.foldl_concat] at h
    have hbefore (hold : (w, request) ∈ (of k t before).asked) :
        ∃ earlier, earlier ++ [.ask request] <+: before ++ [o] ∧ w = (of k t earlier).world := by
      obtain ⟨earlier, hearlier, hworld⟩ := ih hold
      exact ⟨earlier, hearlier.trans (List.prefix_append _ _), hworld⟩
    cases o with
    | call c => exact hbefore h
    | files t => exact hbefore h
    | ask other =>
      rcases List.mem_append.1 h with hold | hnew
      · exact hbefore hold
      · obtain ⟨rfl, rfl⟩ := Prod.mk.inj (List.mem_singleton.1 hnew)
        exact ⟨before, List.prefix_rfl, rfl⟩

end Session

/-! ## Refreshes -/

/-- The branches read through the store in memory are what the history of the shared directory of
the root tells. -/
theorem ReadsBranches.tells {l : Layout} {options : CatalogOptions} {m : MemoryStore}
    {changes : List Change} {branches : BranchCollection} {remotes : List Remote}
    (h : ReadsBranches l options m branches remotes) (hm : m.NoExtra)
    (haccount : Account changes (m.refsAt l.commonDir.components)) :
    Tells options changes branches := by
  obtain ⟨listing, hlisting, hbuild, -⟩ := h
  obtain rfl := listing_of_readRefs hlisting
  exact haccount.tells (hm.sharedOf l.commonDir) hbuild

variable (stores : StoreRegistry) (settings : TrackerSettings) (bus : EventBus)

/-- Whatever happened in a session in which no call listed a branch besides those kept by name, each
update that a request makes goes through a handle that a registration made. If it succeeds, and the
handle reads the store in memory, then the branches of its snapshot are what the calls tell that
happened to the handle's shared directory. Where the tracker uses the store in memory, that is the
directory that the calls before the registration tell for the root, and where there is no other
store, every handle reads that store. -/
theorem session_tells (t : FileTree) (occurrences : List Occurrence)
    (hraw : ∀ o ∈ occurrences, o.isRaw = false) :
    let k := Tracker.onBus stores settings bus
    let s := Session.of k t occurrences
    ∀ (request : Tracker.Request), ∀ u ∈ ((s.tracker k).perform s.world request).1.updates,
      ∃ handle, (s.tracker k).handle? u.handle = some handle ∧ u.root = handle.root ∧
        (∃ read, Tracker.ReadIn s.asked stores settings.backend read handle) ∧
        (settings.backend = .memory → (∀ kind, stores.has kind = true → kind = .memory) →
          handle.store = .memory) ∧
        (settings.backend = .memory → ∃ earlier root,
          earlier ++ [.ask (.register root)] <+: occurrences ∧
          Call.dir? (callsIn earlier) handle.root.components =
            some handle.layout.commonDir.components) ∧
        ∀ next, u.result = .ok next → handle.store = .memory →
          Tells handle.options
            (historyAt handle.layout.commonDir.components (Call.deeds (callsIn occurrences)))
            next.branches := by
  intro k s request u hu
  have hs : s.world.memory.Accounted (callsIn occurrences) := Session.accounted_of k t hraw
  have hkeeps := Tracker.Keeps.run stores settings bus s.asked
  obtain ⟨handle, w, hhandle, hroot, hread, hresult⟩ :=
    Tracker.reads_perform hkeeps s.world request u hu
  obtain ⟨-, -, horigin⟩ := Tracker.origin_of_run stores settings bus s.asked
  obtain ⟨read, hreadIn⟩ := horigin u.handle handle hhandle
  refine ⟨handle, hhandle, hroot, ⟨read, hreadIn⟩, fun hbackend honly => ?_, fun hbackend => ?_,
    fun next hnext hstore => ?_⟩
  · obtain ⟨_, _, -, hreadFor⟩ := hreadIn
    rcases hreadFor.available with h | h
    · exact h.trans hbackend
    · exact honly _ h
  · obtain ⟨w, root, hasked, hreadFor⟩ := hreadIn
    obtain ⟨earlier, hearlier, rfl⟩ := Session.exists_of_mem_asked hasked
    have hthen : (Session.of k t earlier).world.memory.Accounted (callsIn earlier) :=
      Session.accounted_of k t fun o ho => hraw o (hearlier.subset (List.mem_append_left _ ho))
    have hlocated := hreadFor.located
    rw [hbackend] at hlocated
    obtain ⟨hplace, hdir⟩ := hthen.told_of_locate hlocated
    exact ⟨earlier, root, hearlier, (congrArg _ hplace).trans hdir⟩
  · rw [hnext, hstore] at hresult
    obtain ⟨-, -, hbranches, -⟩ := readSnapshot_memory_eq_ok_iff.1 hresult.symm
    exact hbranches.tells (hs.noExtra_of_read hread) (hs.account_of_read hread _)

/-! ## A branch that is pushed and moves on -/

/-- A clone is registered, a branch is made in it, pushed and moved on, there and in a linked
worktree that checks it out, and the first branch is deleted. A remote-tracking branch is set for a
remote that is not configured. -/
def pushedAndMoved : List Occurrence :=
  [.call (.addRepository ⟨"/r"⟩), .call (.commit ⟨"/r"⟩), .ask (.register ⟨"/r"⟩),
    .call (.checkoutNewBranch ⟨"/r"⟩ "topic"), .call (.commit ⟨"/r"⟩),
    .call (.addRemote ⟨"/r"⟩ "origin" "/o"), .call (.push ⟨"/r"⟩ "origin" "topic"),
    .call (.setRemoteBranch ⟨"/r"⟩ "gone" "topic" (.ofNumber 9)), .call (.commit ⟨"/r"⟩),
    .call (.addWorktree ⟨"/r"⟩ ⟨"/w"⟩ "side"), .call (.checkout ⟨"/w"⟩ "topic"),
    .call (.commit ⟨"/w"⟩), .call (.deleteBranch ⟨"/r"⟩ "master")]

/-- A tracker over the store in memory alone. -/
def memoryTracker : Tracker :=
  .onBus (StoreRegistry.empty.register .memory) ⟨.memory, 64⟩ (.create 64)

/-- The session of that tracker. -/
def pushedSession : Session := .of memoryTracker .empty pushedAndMoved

/-- The refresh after it finds the branch at the fourth commit, which was made in the linked
worktree, the branch made for that at the third, the remote-tracking branch at the second, and
nothing of the first branch and the remote that is not configured. -/
theorem session_tells_pushed :
    (∀ o ∈ pushedAndMoved, o.isRaw = false) ∧
      ∃ (u : Tracker.Update) (handle : Handle) (next : Snapshot),
        ((pushedSession.tracker memoryTracker).perform pushedSession.world
          (.refresh ⟨"/r"⟩)).1.updates = [u] ∧
        u.result = .ok next ∧ handle.store = .memory ∧
        Tells handle.options
          (historyAt handle.layout.commonDir.components (Call.deeds (callsIn pushedAndMoved)))
          next.branches ∧
        next.branches.localCommit? "topic" = some (.ofNumber 4) ∧
        next.branches.localCommit? "side" = some (.ofNumber 3) ∧
        next.branches.remoteCommit? "origin/topic" = some (.ofNumber 2) ∧
        next.branches.size = 3 := by
  have hraw : ∀ o ∈ pushedAndMoved, o.isRaw = false := by decide
  have hread : (((pushedSession.tracker memoryTracker).perform pushedSession.world
      (.refresh ⟨"/r"⟩)).1.updates.map fun u => u.result.toOption.map fun next =>
        (next.branches.localCommit? "topic", next.branches.localCommit? "side",
          next.branches.remoteCommit? "origin/topic", next.branches.size)) =
      [some (some (.ofNumber 4), some (.ofNumber 3), some (.ofNumber 2), 3)] := by
    decide +kernel
  obtain ⟨u, hupdates, hsome⟩ := List.map_eq_singleton_iff.1 hread
  obtain ⟨next, hnext, hvalues⟩ := Option.map_eq_some_iff.1 hsome
  have hresult := toOption_eq_some_iff.1 hnext
  have hmem : u ∈ ((pushedSession.tracker memoryTracker).perform pushedSession.world
      (.refresh ⟨"/r"⟩)).1.updates := by
    rw [hupdates]
    exact List.mem_cons_self
  obtain ⟨handle, -, -, -, honly, -, htells⟩ :=
    session_tells (StoreRegistry.empty.register .memory) ⟨.memory, 64⟩ (.create 64) .empty
      pushedAndMoved hraw (.refresh ⟨"/r"⟩) u hmem
  have hstore := honly rfl fun kind hkind => by cases kind <;> first | rfl | cases hkind
  exact ⟨hraw, u, handle, next, hupdates, hresult, hstore, htells next hresult hstore,
    congrArg Prod.fst hvalues, congrArg (fun v => v.2.1) hvalues,
    congrArg (fun v => v.2.2.1) hvalues, congrArg (fun v => v.2.2.2) hvalues⟩

end WorktreeTracker
