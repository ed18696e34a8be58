import WorktreeTracker.Proofs.Results
import WorktreeTracker.Store

/-!
# Reads of a refresh

Each read of a refresh gives what the store has and names the root when it fails. No read changes
anything but the record that the store in memory keeps of its reads.
-/

namespace WorktreeTracker

/-! ## What a read leaves alone -/

/-- The world `w'` is `w` after some reads: the record that the store in memory keeps of its reads
may differ, and nothing else. -/
structure World.Read (w w' : World) : Prop where
  /-- The files are the same. -/
  tree : w'.tree = w.tree
  /-- What worktrees share is the same. -/
  shared : w'.memory.shared = w.memory.shared
  /-- The worktrees are the same. -/
  worktrees : w'.memory.worktrees = w.memory.worktrees
  /-- The kind of read that fails is the same. -/
  failing : w'.memory.failing = w.memory.failing

theorem World.Read.refl (w : World) : w.Read w := ⟨rfl, rfl, rfl, rfl⟩

theorem World.Read.trans {w w' w'' : World} (h : w.Read w') (h' : w'.Read w'') : w.Read w'' :=
  ⟨h'.tree.trans h.tree, h'.shared.trans h.shared, h'.worktrees.trans h.worktrees,
    h'.failing.trans h.failing⟩

/-- Nothing but reads happened to a world: no commit was counted, either. -/
structure World.OnlyRead (w w' : World) : Prop extends World.Read w w' where
  /-- The number of commits is the same. -/
  commits : w'.memory.commits = w.memory.commits

theorem World.OnlyRead.refl (w : World) : w.OnlyRead w := ⟨.refl w, rfl⟩

theorem World.OnlyRead.trans {w w' w'' : World} (h : w.OnlyRead w') (h' : w'.OnlyRead w'') :
    w.OnlyRead w'' :=
  ⟨h.toRead.trans h'.toRead, h'.commits.trans h.commits⟩

/-- The worktree that a read of the store in memory is for does not depend on what was read
before. -/
theorem World.Read.checkRead {w w' : World} (h : w.Read w') (kind : ReadKind) (root : Path) :
    w'.memory.checkRead kind root = w.memory.checkRead kind root := by
  unfold MemoryStore.checkRead MemoryStore.injected?
  rw [h.worktrees, h.failing]

/-- Nor does what the worktrees share. -/
theorem World.Read.sharedOf {w w' : World} (h : w.Read w') (commonDir : Path) :
    w'.memory.sharedOf commonDir = w.memory.sharedOf commonDir := by
  unfold MemoryStore.sharedOf
  rw [h.shared]

namespace StoreKind

theorem locate_read (kind : StoreKind) (w : World) (root : Path) :
    w.OnlyRead (kind.locate w root).2 := by
  cases kind <;> exact ⟨⟨rfl, rfl, rfl, rfl⟩, rfl⟩

theorem readHead_read (kind : StoreKind) (w : World) (l : Layout) :
    w.OnlyRead (kind.readHead w l).2 := by
  cases kind <;> exact ⟨⟨rfl, rfl, rfl, rfl⟩, rfl⟩

theorem readRefs_read (kind : StoreKind) (w : World) (l : Layout) :
    w.OnlyRead (kind.readRefs w l).2 := by
  cases kind with
  | libgit => exact .refl w
  | files => exact .refl w
  | memory =>
    unfold StoreKind.readRefs MemoryStore.readRefs
    cases w.memory.checkRead .refs l.workDir <;> exact ⟨⟨rfl, rfl, rfl, rfl⟩, rfl⟩

theorem readState_read (kind : StoreKind) (w : World) (l : Layout) :
    w.OnlyRead (kind.readState w l).2 := by
  cases kind <;> exact ⟨⟨rfl, rfl, rfl, rfl⟩, rfl⟩

/-- The listing does not depend on what was read before. -/
theorem readRefs_of_read {w w' : World} (h : w.Read w') (kind : StoreKind) (l : Layout) :
    (kind.readRefs w' l).1 = (kind.readRefs w l).1 := by
  cases kind with
  | libgit =>
    simp only [readRefs]
    rw [h.tree]
  | files =>
    simp only [readRefs]
    rw [h.tree]
  | memory =>
    unfold readRefs MemoryStore.readRefs
    dsimp only
    rw [h.checkRead, h.sharedOf]
    cases w.memory.checkRead .refs l.workDir <;> rfl

/-- HEAD does not depend on what was read before. -/
theorem readHead_of_read {w w' : World} (h : w.Read w') (kind : StoreKind) (l : Layout) :
    (kind.readHead w' l).1 = (kind.readHead w l).1 := by
  cases kind with
  | libgit =>
    simp only [readHead]
    rw [h.tree]
  | files =>
    simp only [readHead]
    rw [h.tree]
  | memory =>
    unfold readHead World.withMemory MemoryStore.readHead
    dsimp only
    rw [h.checkRead]
    simp only [h.sharedOf]

/-- The operation in progress does not depend on what was read before. -/
theorem readState_of_read {w w' : World} (h : w.Read w') (kind : StoreKind) (l : Layout) :
    (kind.readState w' l).1 = (kind.readState w l).1 := by
  cases kind with
  | libgit =>
    simp only [readState]
    rw [h.tree]
  | files =>
    simp only [readState]
    rw [h.tree]
  | memory =>
    unfold readState World.withMemory MemoryStore.readState
    dsimp only
    rw [h.checkRead]

end StoreKind

/-! ## Single reads -/

/-- Every backend that reads from disk locates a root in the same way. -/
theorem locate_of_configurable {kind : StoreKind} (h : kind.isConfigurable = true) (w : World)
    (root : Path) :
    (kind.locate w root).1 = (locate w.tree root).mapError StoreError.ofRead := by
  cases kind with
  | libgit => rfl
  | files => rfl
  | memory => cases h

/-! ## Reads of a refresh -/

/-- HEAD is what the store reads, and its failure names the root. -/
theorem resolveHead_eq (kind : StoreKind) (w : World) (l : Layout) :
    resolveHead kind w l =
      (((kind.readHead w l).1.mapError (TrackError.ofStore l.workDir)).map Head.ofTarget,
        (kind.readHead w l).2) := by
  unfold resolveHead
  rcases kind.readHead w l with ⟨_ | target, w'⟩ <;> rfl

/-- The listing is what the store reads, and its failure names the root. -/
theorem readListing_eq (kind : StoreKind) (w : World) (l : Layout) :
    readListing kind w l =
      ((kind.readRefs w l).1.mapError (TrackError.ofStore l.workDir), (kind.readRefs w l).2) := by
  unfold readListing
  rcases kind.readRefs w l with ⟨_ | listing, w'⟩ <;> rfl

/-- The operation is what the store reads, and its failure names the root. -/
theorem resolveState_eq (kind : StoreKind) (w : World) (l : Layout) :
    resolveState kind w l =
      ((kind.readState w l).1.mapError (TrackError.ofStore l.workDir), (kind.readState w l).2) := by
  unfold resolveState
  rcases kind.readState w l with ⟨_ | state, w'⟩ <;> rfl

/-- What the reads of a refresh give does not depend on what was read before. -/
theorem resolveHead_of_read {w w' : World} (h : w.Read w') (kind : StoreKind) (l : Layout) :
    (resolveHead kind w' l).1 = (resolveHead kind w l).1 := by
  simp only [resolveHead_eq, StoreKind.readHead_of_read h]

theorem readListing_of_read {w w' : World} (h : w.Read w') (kind : StoreKind) (l : Layout) :
    (readListing kind w' l).1 = (readListing kind w l).1 := by
  simp only [readListing_eq, StoreKind.readRefs_of_read h]

theorem resolveState_of_read {w w' : World} (h : w.Read w') (kind : StoreKind) (l : Layout) :
    (resolveState kind w' l).1 = (resolveState kind w l).1 := by
  simp only [resolveState_eq, StoreKind.readState_of_read h]

theorem resolveHead_read (kind : StoreKind) (w : World) (l : Layout) :
    w.OnlyRead (resolveHead kind w l).2 := by
  rw [resolveHead_eq]
  exact kind.readHead_read w l

theorem readListing_read (kind : StoreKind) (w : World) (l : Layout) :
    w.OnlyRead (readListing kind w l).2 := by
  rw [readListing_eq]
  exact kind.readRefs_read w l

theorem resolveState_read (kind : StoreKind) (w : World) (l : Layout) :
    w.OnlyRead (resolveState kind w l).2 := by
  rw [resolveState_eq]
  exact kind.readState_read w l

/-- A refresh changes nothing but the record of reads. -/
theorem readSnapshot_read (kind : StoreKind) (w : World) (l : Layout) (options : CatalogOptions) :
    w.OnlyRead (readSnapshot kind w l options).2 := by
  have hhead := resolveHead_read kind w l
  have hlisting (w : World) := readListing_read kind w l
  have hstate (w : World) := resolveState_read kind w l
  unfold readSnapshot
  rcases hread : resolveHead kind w l with ⟨_ | head, w₁⟩
  · rw [hread] at hhead
    exact hhead
  rw [hread] at hhead
  dsimp only
  have hlisting := hlisting w₁
  rcases hread : readListing kind w₁ l with ⟨_ | listing, w₂⟩
  · rw [hread] at hlisting
    exact hhead.trans hlisting
  rw [hread] at hlisting
  dsimp only
  cases Catalog.build options l.workDir listing with
  | error e => exact hhead.trans hlisting
  | ok branches =>
    dsimp only
    have hstate := hstate w₂
    rcases hread : resolveState kind w₂ l with ⟨_ | state, w₃⟩ <;> rw [hread] at hstate
    · exact hhead.trans (hlisting.trans hstate)
    · exact hhead.trans (hlisting.trans hstate)

/-- A snapshot is made of what each read gives on its own. -/
theorem readSnapshot_eq (kind : StoreKind) (w : World) (l : Layout) (options : CatalogOptions) :
    (readSnapshot kind w l options).1 = do
      let head ← (resolveHead kind w l).1
      let listing ← (readListing kind w l).1
      let branches ← Catalog.build options l.workDir listing
      let state ← (resolveState kind w l).1
      return .fresh l branches head state listing.remotes := by
  have hhead := resolveHead_read kind w l
  have hlisting := readListing_read kind (resolveHead kind w l).2 l
  rw [← readListing_of_read hhead.toRead, ← resolveState_of_read (hhead.trans hlisting).toRead,
    readSnapshot]
  rcases resolveHead kind w l with ⟨e | head, w₁⟩
  · rfl
  dsimp only [bind, Except.bind]
  rcases readListing kind w₁ l with ⟨e | listing, w₂⟩
  · rfl
  dsimp only
  cases Catalog.build options l.workDir listing with
  | error e => rfl
  | ok branches =>
    dsimp only
    rcases resolveState kind w₂ l with ⟨e | state, w₃⟩ <;> rfl

/-- A refresh gives what it gives whatever was read before. -/
theorem readSnapshot_of_read {w w' : World} (h : w.Read w') (kind : StoreKind) (l : Layout)
    (options : CatalogOptions) :
    (readSnapshot kind w' l options).1 = (readSnapshot kind w l options).1 := by
  rw [readSnapshot_eq, readSnapshot_eq, resolveHead_of_read h, readListing_of_read h,
    resolveState_of_read h]

/-- The branches of a snapshot are built from what the store lists. -/
theorem listing_of_readSnapshot {kind : StoreKind} {w : World} {l : Layout}
    {options : CatalogOptions} {s : Snapshot} (h : (readSnapshot kind w l options).1 = .ok s) :
    ∃ listing, (kind.readRefs w l).1 = .ok listing ∧
      Catalog.build options l.workDir listing = .ok s.branches := by
  rw [readSnapshot_eq] at h
  obtain ⟨head, -, h⟩ := bind_eq_ok.1 h
  obtain ⟨listing, hlisting, h⟩ := bind_eq_ok.1 h
  obtain ⟨branches, hbuild, h⟩ := bind_eq_ok.1 h
  obtain ⟨state, -, h⟩ := bind_eq_ok.1 h
  obtain rfl := Except.ok.inj h
  rw [readListing_eq, mapError_eq_ok] at hlisting
  exact ⟨listing, hlisting, hbuild⟩

end WorktreeTracker
