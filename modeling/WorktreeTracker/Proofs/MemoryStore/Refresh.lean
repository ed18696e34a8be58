import Mathlib.Data.List.Nodup
import WorktreeTracker.Proofs.MemoryStore.History
import WorktreeTracker.Proofs.Store

/-!
# A refresh among calls

A refresh makes three reads, and anything may be called between them. Each part of its snapshot is
what one store had when the part was read, HEAD first, then the branches and then the operation. The
snapshot is the view of a single store exactly when one store reads all three parts alike, and
nothing keeps a branch from moving between the first two reads.
-/

namespace WorktreeTracker

/-! ## A refresh read by read -/

/-- How far a refresh has come. -/
inductive Progress where
  /-- Nothing is read yet. -/
  | begun
  /-- HEAD is read. -/
  | headRead (head : Head)
  /-- The branches and remotes are read, too. -/
  | listed (head : Head) (branches : BranchCollection) (remotes : List Remote)
  /-- The refresh is over. -/
  | ended (result : Except TrackError Snapshot)

/-- The next read of a refresh. -/
def Progress.advance (kind : StoreKind) (l : Layout) (options : CatalogOptions) (w : World) :
    Progress → Progress × World
  | .begun =>
    match resolveHead kind w l with
    | (.error e, w) => (.ended (.error e), w)
    | (.ok head, w) => (.headRead head, w)
  | .headRead head =>
    match readListing kind w l with
    | (.error e, w) => (.ended (.error e), w)
    | (.ok listing, w) =>
      match Catalog.build options l.workDir listing with
      | .error e => (.ended (.error e), w)
      | .ok branches => (.listed head branches listing.remotes, w)
  | .listed head branches remotes =>
    match resolveState kind w l with
    | (.error e, w) => (.ended (.error e), w)
    | (.ok state, w) => (.ended (.ok (.fresh l branches head state remotes)), w)
  | .ended result => (.ended result, w)

/-- Three reads in a row are a refresh. -/
theorem advance_advance_advance (kind : StoreKind) (l : Layout) (options : CatalogOptions)
    (w : World) :
    let first := Progress.begun.advance kind l options w
    let second := first.1.advance kind l options first.2
    second.1.advance kind l options second.2 =
      (.ended (readSnapshot kind w l options).1, (readSnapshot kind w l options).2) := by
  dsimp only
  unfold readSnapshot
  rw [Progress.advance]
  rcases resolveHead kind w l with ⟨_ | head, w₁⟩
  · rfl
  dsimp only
  rw [Progress.advance]
  rcases readListing kind w₁ l with ⟨_ | listing, w₂⟩
  · rfl
  dsimp only
  cases Catalog.build options l.workDir listing with
  | error e => rfl
  | ok branches =>
    dsimp only
    rw [Progress.advance]
    rcases resolveState kind w₂ l with ⟨_ | state, w₃⟩ <;> rfl

/-- What can happen next during a refresh. -/
inductive Act where
  /-- The refresh makes its next read. -/
  | read
  /-- Something else happens to the store. -/
  | call (c : Call)

/-- Whether something lists a local branch besides the others. -/
def Act.isRaw : Act → Bool
  | .read => false
  | .call c => c.isRaw

/-- A refresh of the store in memory and what happens meanwhile. -/
structure Course where
  /-- How far the refresh has come. -/
  progress : Progress
  /-- What a read sees now. -/
  world : World
  /-- The stores before this one since the refresh began, the last one first. -/
  past : List MemoryStore

namespace Course

/-- A refresh that begins. -/
def start (t : FileTree) (m : MemoryStore) : Course := ⟨.begun, ⟨t, m⟩, []⟩

/-- The course after something happens. Nothing counts once the refresh is over. -/
def step (l : Layout) (options : CatalogOptions) (x : Course) (act : Act) : Course :=
  match x.progress with
  | .ended _ => x
  | progress =>
    match act with
    | .read =>
      let next := progress.advance .memory l options x.world
      ⟨next.1, next.2, x.world.memory :: x.past⟩
    | .call c =>
      ⟨progress, { x.world with memory := x.world.memory.perform c }, x.world.memory :: x.past⟩

/-- The course after all that happens. -/
def run (l : Layout) (options : CatalogOptions) (x : Course) (acts : List Act) : Course :=
  acts.foldl (step l options) x

end Course

/-! ## What a store has for a part of a snapshot -/

section Parts

variable (l : Layout) (options : CatalogOptions) (m : MemoryStore)

/-- The HEAD that is read. -/
def ReadsHead (head : Head) : Prop :=
  ∃ target, (m.readHead l).1 = .ok target ∧ Head.ofTarget target = head

/-- The branches and remotes that are read. -/
def ReadsBranches (branches : BranchCollection) (remotes : List Remote) : Prop :=
  ∃ listing, (m.readRefs l).1 = .ok listing ∧
    Catalog.build options l.workDir listing = .ok branches ∧ listing.remotes = remotes

/-- The operation that is read. -/
def ReadsState (state : OperationState) : Prop :=
  (m.readState l).1 = .ok state

end Parts

variable {l : Layout} {options : CatalogOptions} {m : MemoryStore} {t : FileTree}

theorem resolveHead_memory {head : Head} {w : World} :
    (resolveHead .memory w l).1 = .ok head ↔ ReadsHead l w.memory head := by
  rw [resolveHead_eq, map_eq_ok]
  simp only [mapError_eq_ok]
  rfl

theorem readListing_memory {listing : Listing} {w : World} :
    (readListing .memory w l).1 = .ok listing ↔ (w.memory.readRefs l).1 = .ok listing := by
  rw [readListing_eq, mapError_eq_ok]
  rfl

theorem resolveState_memory {state : OperationState} {w : World} :
    (resolveState .memory w l).1 = .ok state ↔ ReadsState l w.memory state := by
  rw [resolveState_eq, mapError_eq_ok]
  rfl

/-- A snapshot is the view of a store when all its parts are what the store has. -/
theorem readSnapshot_memory_eq_ok_iff {s : Snapshot} :
    (readSnapshot .memory ⟨t, m⟩ l options).1 = .ok s ↔
      s = .fresh l s.branches s.head s.state s.remotes ∧ ReadsHead l m s.head ∧
        ReadsBranches l options m s.branches s.remotes ∧ ReadsState l m s.state := by
  rw [readSnapshot_eq, bind_eq_ok]
  constructor
  · rintro ⟨head, hhead, h⟩
    obtain ⟨listing, hlisting, h⟩ := bind_eq_ok.1 h
    obtain ⟨branches, hbuild, h⟩ := bind_eq_ok.1 h
    obtain ⟨state, hstate, h⟩ := bind_eq_ok.1 h
    obtain rfl := Except.ok.inj h
    exact ⟨rfl, resolveHead_memory.1 hhead, ⟨listing, readListing_memory.1 hlisting, hbuild, rfl⟩,
      resolveState_memory.1 hstate⟩
  · rintro ⟨hfresh, hhead, ⟨listing, hlisting, hbuild, hremotes⟩, hstate⟩
    rw [hfresh, ← hremotes]
    exact ⟨s.head, resolveHead_memory.2 hhead, bind_eq_ok.2 ⟨listing,
      readListing_memory.2 hlisting, bind_eq_ok.2 ⟨s.branches, hbuild, bind_eq_ok.2 ⟨s.state,
        resolveState_memory.2 hstate, rfl⟩⟩⟩⟩

/-! ## Where the parts of a snapshot come from -/

/-- What was read so far is what past stores had, the later read of a later store. -/
inductive Explained (l : Layout) (options : CatalogOptions) : List MemoryStore → Progress → Prop
  | begun {past : List MemoryStore} : Explained l options past .begun
  | headRead {past : List MemoryStore} {m₁ : MemoryStore} {head : Head}
      (horder : [m₁].Sublist past) (hhead : ReadsHead l m₁ head) :
      Explained l options past (.headRead head)
  | listed {past : List MemoryStore} {m₁ m₂ : MemoryStore} {head : Head}
      {branches : BranchCollection} {remotes : List Remote} (horder : [m₂, m₁].Sublist past)
      (hhead : ReadsHead l m₁ head) (hbranches : ReadsBranches l options m₂ branches remotes) :
      Explained l options past (.listed head branches remotes)
  | ended {past : List MemoryStore} {m₁ m₂ m₃ : MemoryStore} {head : Head}
      {branches : BranchCollection} {remotes : List Remote} {state : OperationState}
      (horder : [m₃, m₂, m₁].Sublist past) (hhead : ReadsHead l m₁ head)
      (hbranches : ReadsBranches l options m₂ branches remotes) (hstate : ReadsState l m₃ state) :
      Explained l options past (.ended (.ok (.fresh l branches head state remotes)))
  | failed {past : List MemoryStore} {e : TrackError} :
      Explained l options past (.ended (.error e))

/-- Later stores do not count for what was read. -/
theorem Explained.cons {past : List MemoryStore} {progress : Progress}
    (h : Explained l options past progress) (m : MemoryStore) :
    Explained l options (m :: past) progress := by
  cases h with
  | begun => exact .begun
  | headRead horder hhead => exact .headRead (horder.cons m) hhead
  | listed horder hhead hbranches => exact .listed (horder.cons m) hhead hbranches
  | ended horder hhead hbranches hstate => exact .ended (horder.cons m) hhead hbranches hstate
  | failed => exact .failed

/-- The next read adds the part that the store has when it is read. -/
theorem Explained.advance {past : List MemoryStore} {progress : Progress}
    (h : Explained l options past progress) (w : World) :
    Explained l options (w.memory :: past) (progress.advance .memory l options w).1 := by
  cases h with
  | begun =>
    rw [Progress.advance]
    rcases hread : resolveHead .memory w l with ⟨e | head, w'⟩
    · exact .failed
    · have hhead : ReadsHead l w.memory head := resolveHead_memory.1 (congrArg Prod.fst hread)
      exact .headRead (.cons_cons _ (List.nil_sublist _)) hhead
  | headRead horder hhead =>
    rw [Progress.advance]
    rcases hread : readListing .memory w l with ⟨e | listing, w'⟩
    · exact .failed
    · dsimp only
      cases hbuild : Catalog.build options l.workDir listing with
      | error e => exact .failed
      | ok branches =>
        have hlisting := readListing_memory.1 (congrArg Prod.fst hread)
        exact .listed (horder.cons_cons _) hhead ⟨listing, hlisting, hbuild, rfl⟩
  | listed horder hhead hbranches =>
    rw [Progress.advance]
    rcases hread : resolveState .memory w l with ⟨e | state, w'⟩
    · exact .failed
    · have hstate : ReadsState l w.memory state := resolveState_memory.1 (congrArg Prod.fst hread)
      exact .ended (horder.cons_cons _) hhead hbranches hstate
  | ended horder hhead hbranches hstate => exact .ended (horder.cons _) hhead hbranches hstate
  | failed => exact .failed

/-- Whatever happens next, what was read so far stays explained. -/
theorem Explained.step {x : Course} (h : Explained l options x.past x.progress) (act : Act) :
    Explained l options (x.step l options act).past (x.step l options act).progress := by
  obtain ⟨progress, w, past⟩ := x
  cases progress with
  | ended result => exact h
  | begun =>
    cases act with
    | read => exact h.advance w
    | call c => exact h.cons w.memory
  | headRead head =>
    cases act with
    | read => exact h.advance w
    | call c => exact h.cons w.memory
  | listed head branches remotes =>
    cases act with
    | read => exact h.advance w
    | call c => exact h.cons w.memory

/-- At any time during a refresh, what was read so far is explained. -/
theorem Explained.run {x : Course} (h : Explained l options x.past x.progress) (acts : List Act) :
    Explained l options (x.run l options acts).past (x.run l options acts).progress := by
  induction acts generalizing x with
  | nil => exact h
  | cons act acts ih => exact ih (h.step act)

/-! ## The branch that is checked out -/

/-- The commit of an attached HEAD is that of its branch in the shared directory of the worktree. -/
theorem ReadsHead.revision {head : Head} (h : ReadsHead l m head) {b : BranchName}
    (hb : head.branch = some b) :
    ∃ w, m.worktrees.find? l.workDir.components = some w ∧
      head.revision = (m.sharedOf w.layout.commonDir).commit? b := by
  obtain ⟨target, htarget, rfl⟩ := h
  obtain ⟨w, hw, htarget⟩ := bind_eq_ok.1 htarget
  refine ⟨w, ?_, ?_⟩
  · exact MemoryStore.worktree_eq_ok.1 (MemoryStore.worktree_of_checkRead hw)
  · split at htarget
    next => cases htarget
    next oid =>
      obtain rfl := Except.ok.inj htarget
      cases hb
    next name =>
      obtain rfl := Except.ok.inj htarget
      obtain rfl := Option.some.inj hb
      rfl

/-- What is listed is what the worktrees with the shared directory of the root share. -/
theorem listing_of_readRefs {listing : Listing} (h : (m.readRefs l).1 = .ok listing) :
    listing = (m.sharedOf l.commonDir).listing := by
  unfold MemoryStore.readRefs at h
  dsimp only at h
  split at h
  next => cases h
  next => exact (Except.ok.inj h).symm

/-- Without branches listed besides, a branch has in the collection the commit that it has in the
shared directory of the root. -/
theorem ReadsBranches.localCommit? {branches : BranchCollection} {remotes : List Remote}
    (h : ReadsBranches l options m branches remotes) (hm : m.NoExtra) (b : BranchName) :
    branches.localCommit? b.text = (m.sharedOf l.commonDir).commit? b := by
  obtain ⟨listing, hlisting, hbuild, -⟩ := h
  obtain rfl := listing_of_readRefs hlisting
  have hextra := hm.sharedOf l.commonDir
  generalize m.sharedOf l.commonDir = shared at hbuild hextra
  have hlocals : shared.listing.locals =
      shared.locals.entries.map fun e => ⟨e.1, e.2.1, e.2.2⟩ := by
    rw [SharedRefs.listing, hextra, List.append_nil]
  have hkeys :
      shared.listing.locals.map Catalog.localKey = shared.locals.keys.map LocalBranch.mk := by
    rw [hlocals, OrderedMap.keys, List.map_map, List.map_map]
    rfl
  have hnodup : (shared.listing.locals.map Catalog.localKey).Nodup := by
    rw [hkeys]
    refine shared.locals.nodup_keys.map ?_
    intro a b heq
    exact LocalBranch.mk.inj heq
  have hperm := Catalog.locals_of_build hbuild hnodup
  refine Option.ext fun oid => ?_
  rw [BranchCollection.localCommit?_eq_some_iff, hperm.mem_iff, hlocals, List.map_map,
    SharedRefs.commit?, Option.map_eq_some_iff, List.mem_map]
  constructor
  · rintro ⟨⟨name, id, tracking⟩, hmem, heq⟩
    obtain ⟨hname, rfl⟩ := Prod.mk.inj heq
    obtain rfl := LocalBranch.mk.inj hname
    exact ⟨(id, tracking), OrderedMap.find?_eq_some_iff.2 hmem, rfl⟩
  · rintro ⟨⟨id, tracking⟩, hfound, rfl⟩
    exact ⟨_, OrderedMap.find?_eq_some_iff.1 hfound, rfl⟩

/-- In the view of one store that has the worktree where the root says, an attached HEAD has the
commit of its branch in the collection. -/
theorem revision_of_view {s : Snapshot} (h : (readSnapshot .memory ⟨t, m⟩ l options).1 = .ok s)
    (hm : m.NoExtra) (hshared : ∀ w, m.worktrees.find? l.workDir.components = some w →
      w.layout.commonDir = l.commonDir) {b : BranchName} (hb : s.head.branch = some b) :
    s.head.revision = s.branches.localCommit? b.text := by
  obtain ⟨-, hhead, hbranches, -⟩ := readSnapshot_memory_eq_ok_iff.1 h
  obtain ⟨w, hw, hrevision⟩ := hhead.revision hb
  rw [hrevision, hbranches.localCommit? hm, hshared w hw]

/-! ## One refresh -/

/-- A read of a refresh leaves the store as a read of another one does. -/
theorem advance_memory (l : Layout) (options : CatalogOptions) (progress : Progress) (w : World) :
    (progress.advance .memory l options w).2.memory = w.memory ∨
      ∃ c : Call, c.isRaw = false ∧
        (progress.advance .memory l options w).2.memory = w.memory.perform c := by
  cases progress with
  | begun =>
    refine .inr ⟨.readHead l, rfl, ?_⟩
    rw [Progress.advance, resolveHead_eq]
    generalize ((StoreKind.readHead .memory w l).1.mapError _).map Head.ofTarget = result
    cases result <;> rfl
  | headRead head =>
    refine .inr ⟨.readRefs l, rfl, ?_⟩
    rw [Progress.advance, readListing_eq]
    generalize (StoreKind.readRefs .memory w l).1.mapError _ = result
    cases result with
    | error e => rfl
    | ok listing =>
      dsimp only
      cases Catalog.build options l.workDir listing <;> rfl
  | listed head branches remotes =>
    refine .inr ⟨.readState l, rfl, ?_⟩
    rw [Progress.advance, resolveState_eq]
    generalize (StoreKind.readState .memory w l).1.mapError _ = result
    cases result <;> rfl
  | ended result => exact .inl rfl

/-- No store since the refresh began lists a branch besides. -/
def Course.NoExtra (x : Course) : Prop :=
  ∀ m ∈ x.world.memory :: x.past, m.NoExtra

theorem Course.noExtra_start (hm : m.NoExtra) : (Course.start t m).NoExtra := by
  intro m' hm'
  rwa [List.mem_singleton.1 hm']

theorem Course.NoExtra.step {x : Course} (h : x.NoExtra) {act : Act}
    (hact : act.isRaw = false) : (x.step l options act).NoExtra := by
  have hnow := h x.world.memory List.mem_cons_self
  have hread : (x.progress.advance .memory l options x.world).2.memory.NoExtra := by
    rcases advance_memory l options x.progress x.world with hsame | ⟨c, hc, hchanged⟩
    · rwa [hsame]
    · rw [hchanged]
      exact hnow.perform hc
  obtain ⟨progress, w, past⟩ := x
  have hnext (m : MemoryStore) (hm : m.NoExtra) (m' : MemoryStore)
      (hmem : m' ∈ m :: w.memory :: past) : m'.NoExtra := by
    rcases List.mem_cons.1 hmem with rfl | hmem
    · exact hm
    · exact h m' hmem
  cases progress with
  | ended result => exact h
  | _ =>
    cases act with
    | read => exact hnext _ hread
    | call c => exact hnext _ (hnow.perform hact)

/-- Without a call that lists a branch besides, no store during a refresh has such a branch. -/
theorem Course.NoExtra.run {x : Course} (h : x.NoExtra) {acts : List Act}
    (hacts : ∀ act ∈ acts, act.isRaw = false) : (x.run l options acts).NoExtra := by
  induction acts generalizing x with
  | nil => exact h
  | cons act acts ih =>
    have hfirst := hacts act List.mem_cons_self
    exact ih (h.step hfirst) fun other hother => hacts other (List.mem_cons_of_mem _ hother)

/-- Every snapshot that a refresh makes among calls has the HEAD of one store, the branches of the
same or a later one and the operation of the same or a later one, all of them stores since the
refresh began. It is the view of a store exactly when that store has all three parts. When no branch
is listed besides, an attached HEAD has the commit of its branch in the first store, looked up where
the worktree of that store says, and the collection its commit in the second one, looked up where
the root says. -/
theorem refresh_parts (t : FileTree) (m : MemoryStore) (l : Layout) (options : CatalogOptions)
    (acts : List Act) {s : Snapshot}
    (h : ((Course.start t m).run l options acts).progress = .ended (.ok s)) :
    ∃ m₁ m₂ m₃, [m₃, m₂, m₁].Sublist ((Course.start t m).run l options acts).past ∧
      ReadsHead l m₁ s.head ∧ ReadsBranches l options m₂ s.branches s.remotes ∧
      ReadsState l m₃ s.state ∧
      (∀ m', (readSnapshot .memory ⟨t, m'⟩ l options).1 = .ok s ↔
        ReadsHead l m' s.head ∧ ReadsBranches l options m' s.branches s.remotes ∧
          ReadsState l m' s.state) ∧
      (m.NoExtra → (∀ act ∈ acts, act.isRaw = false) → ∀ b, s.head.branch = some b →
        ∃ w, m₁.worktrees.find? l.workDir.components = some w ∧
          s.head.revision = (m₁.sharedOf w.layout.commonDir).commit? b ∧
          s.branches.localCommit? b.text = (m₂.sharedOf l.commonDir).commit? b) := by
  have hexplained : Explained l options ((Course.start t m).run l options acts).past
      ((Course.start t m).run l options acts).progress := Explained.run .begun acts
  rw [h] at hexplained
  cases hexplained with
  | @ended m₁ m₂ m₃ head branches remotes state horder hhead hbranches hstate =>
    refine ⟨m₁, m₂, m₃, horder, hhead, hbranches, hstate, ?_, ?_⟩
    · intro m'
      exact readSnapshot_memory_eq_ok_iff.trans (and_iff_right rfl)
    · intro hm hacts b hb
      have hm₂ : m₂.NoExtra := by
        refine (Course.noExtra_start hm).run hacts m₂ (List.mem_cons_of_mem _ (horder.subset ?_))
        exact List.mem_cons_of_mem _ List.mem_cons_self
      obtain ⟨w, hw, hrevision⟩ := hhead.revision hb
      exact ⟨w, hw, hrevision, hbranches.localCommit? hm₂ b⟩

/-! ## Refreshes with calls in between -/

/-- The snapshot of a refresh that is over. -/
def Progress.snapshot? : Progress → Option Snapshot
  | .ended (.ok s) => some s
  | _ => none

theorem Progress.eq_ended_of_snapshot? {progress : Progress} {s : Snapshot}
    (h : progress.snapshot? = some s) : progress = .ended (.ok s) := by
  unfold Progress.snapshot? at h
  split at h
  next => rw [Option.some.inj h]
  next => cases h

/-- The branch of HEAD, its commit and the commit of `master`. -/
def Snapshot.commits (s : Snapshot) : Option BranchName × Option Oid × Option Oid :=
  (s.head.branch, s.head.revision, s.branches.localCommit? "master")

namespace MemoryStore

/-- A clone with one commit on its branch. -/
def committed : MemoryStore :=
  (empty.addRepository ⟨"/r"⟩).2.perform (.commit ⟨"/r"⟩)

/-- A clone with one commit and a worktree that has the branch of the clone checked out. -/
def linked : MemoryStore :=
  [Call.addRepository ⟨"/a"⟩, .commit ⟨"/a"⟩, .addWorktree ⟨"/a"⟩ ⟨"/w"⟩ "master"].foldl
    perform empty

/-- The root of the worktree is added as a clone of its own, which gets a commit. -/
def readded : MemoryStore :=
  [Call.addRepository ⟨"/w"⟩, .commit ⟨"/w"⟩].foldl perform linked

theorem noExtra_committed : NoExtra committed := by
  refine (NoExtra.perform noExtra_empty (c := .addRepository ⟨"/r"⟩) ?_).perform ?_ <;> rfl

end MemoryStore

/-- The directories of the clone. -/
def cloneLayout : Layout := ⟨⟨"/r"⟩, ⟨"/r/.git"⟩, ⟨"/r/.git"⟩⟩

/-- The directories of the worktree. -/
def linkedLayout : Layout := ⟨⟨"/w"⟩, ⟨"/a/.git/worktrees/w"⟩, ⟨"/a/.git"⟩⟩

/-- An operation that begins after HEAD is read is in the snapshot, a commit after the branches are
read is not. -/
theorem refresh_around_merge :
    let x := (Course.start .empty .committed).run cloneLayout .unrestricted
      [.read, .call (.setState ⟨"/r"⟩ .merge), .read, .call (.commit ⟨"/r"⟩), .read]
    ∃ s m₁ m₂ m₃, x.progress = .ended (.ok s) ∧ [m₃, m₂, m₁].Sublist x.past ∧
      ReadsHead cloneLayout m₁ s.head ∧
      ReadsBranches cloneLayout .unrestricted m₂ s.branches s.remotes ∧
      ReadsState cloneLayout m₃ s.state ∧ s.head.branch = some .master ∧
      ∃ w, m₁.worktrees.find? cloneLayout.workDir.components = some w ∧
        s.head.revision = (m₁.sharedOf w.layout.commonDir).commit? .master ∧
        s.branches.localCommit? "master" = (m₂.sharedOf cloneLayout.commonDir).commit? .master := by
  intro x
  have hcommits : x.progress.snapshot?.map Snapshot.commits =
      some (some .master, some (.ofNumber 1), some (.ofNumber 1)) := by
    decide +kernel
  obtain ⟨s, hs, hcommits⟩ := Option.map_eq_some_iff.1 hcommits
  have hended : x.progress = .ended (.ok s) := Progress.eq_ended_of_snapshot? hs
  have hbranch : s.head.branch = some .master := congrArg Prod.fst hcommits
  obtain ⟨m₁, m₂, m₃, horder, hhead, hbranches, hstate, -, hrevision⟩ :=
    refresh_parts .empty .committed cloneLayout .unrestricted _ hended
  refine ⟨s, m₁, m₂, m₃, hended, horder, hhead, hbranches, hstate, hbranch, ?_⟩
  exact hrevision MemoryStore.noExtra_committed (by decide) .master hbranch

/-- A refresh of the clone with a commit between the first two reads. -/
def torn : Course :=
  (Course.start .empty .committed).run cloneLayout .unrestricted
    [.read, .call (.commit ⟨"/r"⟩), .read, .read]

theorem noExtra_torn : torn.NoExtra :=
  (Course.noExtra_start MemoryStore.noExtra_committed).run (by decide)

/-- A commit between the first two reads gives a snapshot that no store has, and even when nothing
happens in between, a worktree whose root was added again has the commit of another repository. -/
theorem refresh_inconsistent :
    ((MemoryStore.committed.locate ⟨"/r"⟩).1 = .ok cloneLayout ∧ MemoryStore.committed.NoExtra ∧
      ∃ s, torn.progress = .ended (.ok s) ∧
        s.commits = (some .master, some (.ofNumber 1), some (.ofNumber 2)) ∧
        ∀ m ∈ torn.world.memory :: torn.past,
          (readSnapshot .memory ⟨.empty, m⟩ cloneLayout .unrestricted).1 ≠ .ok s) ∧
    (MemoryStore.linked.locate ⟨"/w"⟩).1 = .ok linkedLayout ∧
      ∃ s, (readSnapshot .memory ⟨.empty, .readded⟩ linkedLayout .unrestricted).1 = .ok s ∧
        s.commits = (some .master, some (.ofNumber 2), some (.ofNumber 1)) := by
  refine ⟨⟨by decide +kernel, MemoryStore.noExtra_committed, ?_⟩, by decide +kernel, ?_⟩
  · have hcommits : torn.progress.snapshot?.map Snapshot.commits =
        some (some .master, some (.ofNumber 1), some (.ofNumber 2)) := by
      decide +kernel
    obtain ⟨s, hs, hcommits⟩ := Option.map_eq_some_iff.1 hcommits
    refine ⟨s, Progress.eq_ended_of_snapshot? hs, hcommits, ?_⟩
    intro m hm hview
    have hshared : ∀ m ∈ torn.world.memory :: torn.past,
        ∀ w ∈ m.worktrees.find? cloneLayout.workDir.components,
          w.layout.commonDir = cloneLayout.commonDir := by
      decide +kernel
    have hsame := revision_of_view hview (noExtra_torn m hm) (hshared m hm)
      (congrArg Prod.fst hcommits)
    have hrevision : s.head.revision = some (.ofNumber 1) := congrArg (fun c => c.2.1) hcommits
    have hcommit : s.branches.localCommit? "master" = some (.ofNumber 2) :=
      congrArg (fun c => c.2.2) hcommits
    have hmoved := hrevision.symm.trans (hsame.trans hcommit)
    revert hmoved
    decide
  · have hcommits :
        (readSnapshot .memory ⟨.empty, .readded⟩ linkedLayout .unrestricted).1.toOption.map
          Snapshot.commits = some (some .master, some (.ofNumber 2), some (.ofNumber 1)) := by
      decide +kernel
    obtain ⟨s, hs, hcommits⟩ := Option.map_eq_some_iff.1 hcommits
    exact ⟨s, toOption_eq_some_iff.1 hs, hcommits⟩

end WorktreeTracker
