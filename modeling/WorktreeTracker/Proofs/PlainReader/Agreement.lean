import WorktreeTracker.Proofs.PlainReader.Head
import WorktreeTracker.Proofs.PlainReader.Listing
import WorktreeTracker.Proofs.PlainReader.LooseFile
import WorktreeTracker.Proofs.Store

/-!
# HEAD and the listing of one refresh

The commit of the branch that is checked out is read twice: HEAD takes it from the loose file of the
branch or else from its first packed line, the listing from what is found last among the packed
lines and the files below `refs/heads/`. The two agree on a branch whose file is reached without a
link and has the name of the branch for itself, unless there is no such file and the first and the
last packed line of the branch differ.
-/

namespace WorktreeTracker.PlainReader

variable {t : FileTree} {l : Layout} {b : BranchName}

/-! ## The file of a branch -/

/-- The names that lead from the directory of the branches to the file of a branch. -/
abbrev branchNames (b : BranchName) : List String := Text.splitOn '/' b.text

theorem along_branchNames (b : BranchName) : along (branchNames b) = b.text :=
  along_splitOn b.text

/-- The file of a branch is not passed over as a lock. -/
theorem isLock_branchFile (l : Layout) (b : BranchName) :
    (branchFile l b).fileName?.any isLock = false :=
  leads_heads.isLock_looseRef b.keeps

/-! ## Branches that are found where they are looked up -/

/-- A branch whose file is reached from the directory of the branches without a link and has the
name of the branch for itself. -/
structure Plainly (t : FileTree) (l : Layout) (b : BranchName) : Prop where
  /-- No link is on the way to the file or in its place. -/
  unlinked : ∀ location, t.resolve (looseDirectory l RefName.heads) true = .ok (location, .directory) →
    ∀ front back target, branchNames b = front ++ back →
      t.entryAt? (location ++ front) ≠ some (.link target)
  /-- No other file has the name of the branch when its backslashes are slashes. -/
  unaliased : ∀ location, t.resolve (looseDirectory l RefName.heads) true = .ok (location, .directory) →
    ∀ names contents, t.Leaf location names (.file contents) →
      slashed (along names) = b.text → along names = b.text

/-- In a tree without links and backslashes every branch is plain. -/
theorem plainly_of_entries
    (h : ∀ e ∈ t.entries, isLink e.2 = false ∧ ∀ name ∈ e.1, '\\' ∉ name.toList) (l : Layout)
    (b : BranchName) : Plainly t l b := by
  constructor
  case unlinked =>
    intro location hdirectory front back target _
    exact unlinked_of_entries (fun e he => (h e he).1) location hdirectory front target
  case unaliased =>
    intro location hdirectory names contents hleaf hshown
    exact unaliased_of_entries (fun e he => (h e he).2) location names contents hdirectory hleaf
      hshown

/-- A file that is read is found below the directory of the branches. -/
theorem Plainly.isFile_of_resolve (h : Plainly t l b) {place : Location} {contents : ByteArray}
    (hresolve : t.resolve (branchFile l b) true = .ok (place, .file contents)) :
    IsFile t l RefName.heads b.text contents :=
  leads_heads.isFile_of_resolve b.keeps h.unlinked hresolve

/-! ## What is found for a branch -/

/-- What is found for a branch, in order: the ids on its packed lines and then, for every file of
its name, the id in the file or nothing when the file is symbolic. -/
def foundIds (entries : List (String × Option Oid)) (b : BranchName) : List (Option Oid) :=
  (entries.filter fun e => e.1 = (RefName.ofBranch b).text).map Prod.snd

theorem foundIds_append (front back : List (String × Option Oid)) (b : BranchName) :
    foundIds (front ++ back) b = foundIds front b ++ foundIds back b := by
  rw [foundIds, List.filter_append, List.map_append]
  rfl

theorem mem_foundIds {entries : List (String × Option Oid)} {value : Option Oid} :
    value ∈ foundIds entries b ↔ ((RefName.ofBranch b).text, value) ∈ entries := by
  rw [foundIds, List.mem_map]
  constructor
  · rintro ⟨⟨name, _⟩, hmem, rfl⟩
    obtain ⟨hentry, hname⟩ := List.mem_filter.1 hmem
    obtain rfl := of_decide_eq_true hname
    exact hentry
  · exact fun hmem => ⟨_, List.mem_filter.2 ⟨hmem, by simp⟩, rfl⟩

/-- The packed lines are found with their ids. -/
theorem foundIds_packedEntries (packed : List (String × Oid)) (b : BranchName) :
    foundIds (packedEntries RefName.heads packed) b = (packedIds packed b).map some := by
  have hstarts : Text.startsWith RefName.heads (RefName.ofBranch b).text = true := by
    rw [Text.startsWith, RefName.ofBranch, Text.after?_append]
    rfl
  rw [foundIds, filter_packedEntries hstarts, packedIds, List.map_map, List.map_map]
  rfl

/-- A listing has for a branch what is found last. -/
theorem find?_ofList_eq (entries : List (String × Option Oid)) (b : BranchName) :
    (OrderedMap.ofList entries).find? (RefName.ofBranch b).text = (foundIds entries b).getLast? := by
  rw [OrderedMap.find?_ofList, foundIds, List.getLast?_map]

/-- What is found in a file for a plain branch is what the file of the branch says. -/
theorem Plainly.value_of_mem (h : Plainly t l b) {loose : List (Option (String × Option Oid))}
    (hloose : List.Forall₂ (fun file found => looseEntry? l file.1 file.2 = .ok found)
      (looseFiles t l RefName.heads) loose) {value : Option Oid}
    (hvalue : value ∈ foundIds (loose.filterMap id) b) :
    ∃ location contents text said,
      t.resolve (looseDirectory l RefName.heads) true = .ok (location, .directory) ∧
      t.Leaf location (branchNames b) (.file contents) ∧
      FileTree.decodeText contents = .ok text ∧
      RefFile.parse (branchFile l b) text = .ok said ∧ value = said.oid? := by
  obtain ⟨found, hfound, hsome⟩ := List.mem_filterMap.1 (mem_foundIds.1 hvalue)
  obtain ⟨⟨path, contents⟩, hfile, hentry⟩ := exists_of_forall₂ hloose hfound
  obtain ⟨location, names, hdirectory, hleaf, rfl⟩ := leads_heads.mem_looseFiles_iff.1 hfile
  rcases (leads_heads.looseEntry?_eq_ok_iff hleaf.ne_nil hleaf.isEntryName).1 hentry with
    ⟨-, rfl⟩ | ⟨-, text, said, htext, hsaid, rfl⟩
  · cases hsome
  · obtain ⟨hname, rfl⟩ := Prod.mk.inj (Option.some.inj hsome)
    have hshown : slashed (along names) = b.text := (String.append_right_inj _).1 hname
    -- the file has the name of the branch, so it is reached by the names of the branch
    have halong := h.unaliased location hdirectory names contents hleaf hshown
    have hnames : names = branchNames b := by
      rw [branchNames, ← halong]
      exact (pieces_along hleaf.ne_nil hleaf.isEntryName).symm
    have hpath : l.looseRef (RefName.heads ++ along names) = branchFile l b := by
      rw [halong]
      rfl
    rw [hpath] at hsaid
    subst hnames
    exact ⟨location, contents, text, said, hdirectory, hleaf, htext, hsaid, rfl⟩

/-- The file of a branch is found, with what it says. -/
theorem exists_entry_of_isFile {loose : List (Option (String × Option Oid))}
    (hloose : List.Forall₂ (fun file found => looseEntry? l file.1 file.2 = .ok found)
      (looseFiles t l RefName.heads) loose) {contents : ByteArray}
    (h : IsFile t l RefName.heads b.text contents) :
    ∃ text said, FileTree.decodeText contents = .ok text ∧
      RefFile.parse (branchFile l b) text = .ok said ∧
      some ((RefName.ofBranch b).text, said.oid?) ∈ loose := by
  obtain ⟨location, hdirectory, hleaf⟩ := h
  have hfile : (l.looseRef (RefName.heads ++ along (branchNames b)), contents) ∈
      looseFiles t l RefName.heads :=
    leads_heads.mem_looseFiles_iff.2 ⟨location, branchNames b, hdirectory, hleaf, rfl⟩
  obtain ⟨found, hfound, hentry⟩ := exists_of_forall₂ hloose.flip hfile
  have hpath : l.looseRef (RefName.heads ++ along (branchNames b)) = branchFile l b := by
    rw [along_branchNames]
    rfl
  rcases (leads_heads.looseEntry?_eq_ok_iff hleaf.ne_nil hleaf.isEntryName).1 hentry with
    ⟨hlock, -⟩ | ⟨-, text, said, htext, hsaid, rfl⟩
  · rw [hpath] at hlock
    exact absurd ((isLock_branchFile l b).symm.trans hlock) (by simp)
  · have hplain : slashed b.text = b.text :=
      slashed_of_not_mem fun hc => b.keeps.characters '\\' hc (by decide)
    rw [along_branchNames, hplain] at hfound
    rw [hpath] at hsaid
    exact ⟨text, said, htext, hsaid, hfound⟩

/-- Something is found in a file for a plain branch whose file is read. -/
theorem Plainly.exists_value (h : Plainly t l b) {loose : List (Option (String × Option Oid))}
    (hloose : List.Forall₂ (fun file found => looseEntry? l file.1 file.2 = .ok found)
      (looseFiles t l RefName.heads) loose) {text : String}
    (htext : t.readText (branchFile l b) = .ok text) :
    ∃ value, value ∈ foundIds (loose.filterMap id) b := by
  obtain ⟨place, contents, hresolve, -⟩ := FileTree.readText_eq_ok_iff.1 htext
  obtain ⟨-, said, -, -, hfound⟩ := exists_entry_of_isFile hloose (h.isFile_of_resolve hresolve)
  exact ⟨said.oid?, mem_foundIds.2 (List.mem_filterMap.2 ⟨_, hfound, rfl⟩)⟩

/-- What is found last for a plain branch with an id in its loose file is that id. -/
theorem Plainly.getLast?_of_looseOid? (h : Plainly t l b) {packed : List (String × Oid)}
    {loose : List (Option (String × Option Oid))}
    (hloose : List.Forall₂ (fun file found => looseEntry? l file.1 file.2 = .ok found)
      (looseFiles t l RefName.heads) loose) {oid : Oid} (hoid : looseOid? t l b = some oid) :
    (foundIds (packedEntries RefName.heads packed ++ loose.filterMap id) b).getLast?.join =
      some oid := by
  obtain ⟨text, htext, hsaid⟩ := exists_of_looseOid? hoid
  obtain ⟨value, hvalue⟩ := h.exists_value hloose htext
  obtain ⟨last, hlast⟩ : ∃ last, (foundIds (loose.filterMap id) b).getLast? = some last :=
    Option.isSome_iff_exists.1 (by
      rw [List.getLast?_isSome]
      exact List.ne_nil_of_mem hvalue)
  obtain ⟨location, contents, text', said, hdirectory, hleaf, htext', hsaid', rfl⟩ :=
    h.value_of_mem hloose (List.mem_of_getLast? hlast)
  -- the file that was met in the walk is the one that the lookup finds
  obtain ⟨place, contents', hresolve, hdecode⟩ := FileTree.readText_eq_ok_iff.1 htext
  rcases leads_heads.resolve_of_isFile b.keeps ⟨location, hdirectory, hleaf⟩ with
    ⟨fault, -, hfault⟩ | ⟨found, hfound⟩
  · cases hfault.symm.trans hresolve
  · obtain ⟨-, hcontents⟩ := Prod.mk.inj (Except.ok.inj (hfound.symm.trans hresolve))
    obtain rfl := Entry.file.inj hcontents
    obtain rfl := Except.ok.inj (htext'.symm.trans hdecode)
    obtain rfl := Except.ok.inj (hsaid'.symm.trans hsaid)
    rw [foundIds_append, List.getLast?_append, hlast]
    rfl

/-- What is found last for a plain branch without a loose file is the id on its last packed line. -/
theorem Plainly.getLast?_of_missing (h : Plainly t l b) {packed : List (String × Oid)}
    {loose : List (Option (String × Option Oid))}
    (hloose : List.Forall₂ (fun file found => looseEntry? l file.1 file.2 = .ok found)
      (looseFiles t l RefName.heads) loose)
    (hmissing : t.readText (branchFile l b) = .error .notFound) :
    (foundIds (packedEntries RefName.heads packed ++ loose.filterMap id) b).getLast?.join =
      (packedIds packed b).getLast? := by
  have hnone : foundIds (loose.filterMap id) b = [] := by
    rw [List.eq_nil_iff_forall_not_mem]
    intro value hvalue
    obtain ⟨location, contents, -, -, hdirectory, hleaf, -⟩ := h.value_of_mem hloose hvalue
    -- a file that the walk meets is found by the lookup, and that one found nothing
    have hresolve := FileTree.readText_eq_notFound_iff.1 hmissing
    rcases leads_heads.resolve_of_isFile b.keeps ⟨location, hdirectory, hleaf⟩ with
      ⟨fault, hne, hfault⟩ | ⟨found, hfound⟩
    · exact hne (Except.error.inj (hfault.symm.trans hresolve))
    · cases hfound.symm.trans hresolve
  rw [foundIds_append, hnone, List.append_nil, foundIds_packedEntries, List.getLast?_map]
  cases (packedIds packed b).getLast? with
  | none => rfl
  | some oid => rfl

/-! ## The commit in a collection -/

/-- The reference of a branch keeps the rules. -/
theorem find?_ofBranch (b : BranchName) : NameProblem.find? (RefName.ofBranch b).text = none :=
  NameProblem.find?_eq_none_iff.2 (RefName.keeps_ofBranch b)

/-- The collection built from a listing has for a branch what was found last. -/
theorem localCommit?_eq {options : CatalogOptions} {root : Path} {found : Listing}
    {c : BranchCollection} (h : listing t l = .ok found)
    (hbuild : Catalog.build options root found = .ok c) (b : BranchName) :
    ∃ entries, refEntries t l RefName.heads = .ok entries ∧
      c.localCommit? b.text = (foundIds entries b).getLast?.join := by
  obtain ⟨settings, -, h⟩ := bind_eq_ok.1 h
  obtain ⟨locals, hlocals, h⟩ := bind_eq_ok.1 h
  obtain ⟨tracked, -, h⟩ := bind_eq_ok.1 h
  obtain rfl := Except.ok.inj h
  obtain ⟨entries, hentries, hrefs⟩ := listRefs_eq_ok (localBranchesOf_eq_ok hlocals)
  refine ⟨entries, hentries, Option.ext fun oid => ?_⟩
  -- the collection has what the listing has, and that is what the references are
  have hperm := Catalog.locals_of_build hbuild (nodup_localBranchesOf hlocals)
  have hlisted : (⟨b⟩, oid) ∈ locals.map (fun e => (Catalog.localKey e, e.oid)) ↔
      (RefName.ofBranch b, oid) ∈ locals.map localRef := by
    rw [List.mem_map, List.mem_map]
    constructor
    · rintro ⟨e, he, heq⟩
      obtain ⟨hkey, rfl⟩ := Prod.mk.inj heq
      obtain rfl := LocalBranch.mk.inj hkey
      exact ⟨e, he, rfl⟩
    · rintro ⟨e, he, heq⟩
      obtain ⟨hname, rfl⟩ := Prod.mk.inj heq
      obtain rfl := RefName.ofBranch_inj hname
      exact ⟨e, he, rfl⟩
  rw [BranchCollection.localCommit?_eq_some_iff, hperm.mem_iff, hlisted, hrefs, mem_directRefs_iff,
    find?_ofList_eq, and_iff_left (find?_ofBranch b), Option.join_eq_some_iff]

/-! ## One refresh -/

theorem resolveHead_files (w : World) (l : Layout) :
    resolveHead .files w l =
      ((((head w.tree l).mapError StoreError.ofHeadRead).mapError (TrackError.ofStore l.workDir)).map
        Head.ofTarget, w) :=
  resolveHead_eq .files w l

theorem readListing_files (w : World) (l : Layout) :
    readListing .files w l =
      (((listing w.tree l).mapError StoreError.ofRead).mapError (TrackError.ofStore l.workDir), w) :=
  readListing_eq .files w l

/-- What a snapshot read through the plain reader is made of. -/
theorem readSnapshot_files_eq_ok_iff (w : World) (l : Layout) (options : CatalogOptions)
    {s : Snapshot} {w' : World} :
    readSnapshot .files w l options = (.ok s, w') ↔
      ∃ target found branches, head w.tree l = .ok target ∧ listing w.tree l = .ok found ∧
        Catalog.build options l.workDir found = .ok branches ∧
        s = .fresh l branches (.ofTarget target) (state w.tree l) found.remotes ∧ w' = w := by
  rw [readSnapshot, resolveHead_files]
  cases head w.tree l with
  | error e => simp [Except.mapError, Except.map]
  | ok target =>
    dsimp only [Except.mapError, Except.map]
    rw [readListing_files]
    cases listing w.tree l with
    | error e => simp [Except.mapError]
    | ok found =>
      dsimp only [Except.mapError]
      constructor
      · intro h
        cases hbuild : Catalog.build options l.workDir found with
        | error e =>
          rw [hbuild] at h
          cases h
        | ok branches =>
          rw [hbuild] at h
          obtain ⟨hs, rfl⟩ := Prod.mk.inj h
          exact ⟨target, found, branches, rfl, rfl, hbuild, (Except.ok.inj hs).symm, rfl⟩
      · rintro ⟨_, _, branches, ⟨⟩, ⟨⟩, hbuild, rfl, rfl⟩
        rw [hbuild]
        rfl

/-- Where the two commits of the branch that is checked out come from, in every snapshot read
through the plain reader whose branch has no symbolic file. HEAD has the id in the loose file of the
branch, or else that of its first packed line; the collection has what is found last. For a plain
branch they agree exactly when it has a loose file or its first and its last packed line have one
id, so a branch that is not listed has no commit in HEAD either. -/
theorem revision_eq_localCommit?_iff {w w' : World} {l : Layout} {options : CatalogOptions}
    {s : Snapshot} {b : BranchName} (h : readSnapshot .files w l options = (.ok s, w'))
    (hb : s.head.branch = some b) (hdirect : IsDirect w.tree l b) :
    ∃ packed entries, packedRefs w.tree l = .ok packed ∧
      refEntries w.tree l RefName.heads = .ok entries ∧
      s.head.revision = (looseOid? w.tree l b).or (packedIds packed b).head? ∧
      s.branches.localCommit? b.text = (foundIds entries b).getLast?.join ∧
      (Plainly w.tree l b →
        (s.head.revision = s.branches.localCommit? b.text ↔
          (looseOid? w.tree l b).isSome ∨
            (packedIds packed b).head? = (packedIds packed b).getLast?)) := by
  obtain ⟨target, found, branches, hhead, hlisting, hbuild, hs, -⟩ :=
    (readSnapshot_files_eq_ok_iff w l options).1 h
  have htarget : s.head = .ofTarget target := by
    rw [hs]
    rfl
  have hbranches : s.branches = branches := by
    rw [hs]
    rfl
  obtain ⟨entries, hentries, hcommit⟩ := localCommit?_eq hlisting hbuild b
  obtain ⟨packed, loose, hpacked, hloose, rfl⟩ := refEntries_eq_ok hentries
  rw [htarget] at hb ⊢
  rw [hbranches]
  obtain ⟨revision, rfl⟩ : ∃ revision, target = .branch b revision := by
    cases target with
    | detached oid => cases hb
    | branch name revision =>
      obtain rfl := Option.some.inj hb
      exact ⟨revision, rfl⟩
  have hrevision : (Head.ofTarget (.branch b revision)).revision = revision := rfl
  refine ⟨packed, _, hpacked, hentries, ?_⟩
  rcases resolveRef_eq_ok hdirect (head_eq_branch hhead) with
    ⟨oid, hoid, rfl⟩ | ⟨hmissing, other, hother, rfl⟩
  · -- both read the loose file
    refine ⟨by rw [hrevision, hoid, Option.some_or], hcommit, fun hplain => ?_⟩
    rw [hrevision, hcommit, hplain.getLast?_of_looseOid? hloose hoid, hoid]
    simp
  · -- HEAD takes the first packed line of the branch, the collection the last one
    obtain rfl := Except.ok.inj (hother.symm.trans hpacked)
    have hnone := looseOid?_eq_none hmissing
    refine ⟨by rw [hrevision, hnone, Option.none_or], hcommit, fun hplain => ?_⟩
    rw [hrevision, hcommit, hplain.getLast?_of_missing hloose hmissing, hnone]
    simp

/-! ## A branch with two packed lines -/

/-- The branch that is checked out. -/
def topic : BranchName := ⟨"topic", by decide⟩

/-- A clone on a branch without commits. -/
def onTopic : FileTree :=
  FileTree.empty.place ["r", ".git", "HEAD"] (.file "ref: refs/heads/topic\n".toUTF8)

/-- The clone with a loose file for the branch. -/
def looseTopic : FileTree := withRef onTopic ["refs", "heads", "topic"] 1

/-- The clone with two packed lines for the branch. -/
def packedTwice : FileTree :=
  onTopic.place ["r", ".git", "packed-refs"]
    (.file ((Oid.ofNumber 1).text ++ " refs/heads/topic\n" ++
      (Oid.ofNumber 2).text ++ " refs/heads/topic\n").toUTF8)

/-- The listing of a clone whose only reference is that of the branch. -/
theorem listing_topic {oid : Oid} (hconfig : config t l = .ok [])
    (hheads : listRefs t l RefName.heads = .ok [(.ofBranch topic, oid)])
    (hremotes : listRefs t l RefName.remotes = .ok []) :
    listing t l = .ok ⟨[⟨topic, oid, none⟩], [], []⟩ := by
  have hlocal :
      localBranch (tracking l []) (.ofBranch topic) oid = .ok (some ⟨topic, oid, none⟩) := by
    have hafter : (RefName.ofBranch topic).after? RefName.heads = some topic.text :=
      Text.after?_append _ _
    rw [localBranch, hafter, Option.bind_some, toOption_ofRef topic.keeps]
    rfl
  have hlocals : localBranchesOf t l (tracking l []) = .ok [⟨topic, oid, none⟩] := by
    refine bind_eq_ok.2 ⟨_, hheads, bind_eq_ok.2 ⟨[some ⟨topic, oid, none⟩], ?_, rfl⟩⟩
    rw [List.mapM_cons, List.mapM_nil]
    exact bind_eq_ok.2 ⟨_, hlocal, rfl⟩
  exact bind_eq_ok.2 ⟨[], hconfig, bind_eq_ok.2 ⟨_, hlocals,
    bind_eq_ok.2 ⟨[], bind_eq_ok.2 ⟨[], hremotes, rfl⟩, rfl⟩⟩⟩

/-- A loose file is what both take the commit from. -/
theorem revision_eq_localCommit?_loose :
    ∃ s w', readSnapshot .files ⟨looseTopic, .empty⟩ sharedLayout .unrestricted = (.ok s, w') ∧
      s.head.branch = some topic ∧ Plainly looseTopic sharedLayout topic ∧
      s.head.revision = s.branches.localCommit? topic.text := by
  have hhead : head looseTopic sharedLayout = .ok (.branch topic (some (.ofNumber 1))) := by
    decide +kernel
  have hlisting : listing looseTopic sharedLayout = .ok ⟨[⟨topic, .ofNumber 1, none⟩], [], []⟩ :=
    listing_topic (by decide +kernel) (by decide +kernel) (by decide +kernel)
  have hloose : (looseOid? looseTopic sharedLayout topic).isSome = true := by
    decide +kernel
  have hplain : Plainly looseTopic sharedLayout topic :=
    plainly_of_entries (by decide +kernel) _ _
  obtain ⟨c, hbuild, -⟩ := Catalog.build_of_nodup ⟨"/r"⟩ ⟨[⟨topic, .ofNumber 1, none⟩], [], []⟩
    (by simp) (by decide) (by decide)
  have hsnapshot := (readSnapshot_files_eq_ok_iff ⟨looseTopic, .empty⟩ sharedLayout .unrestricted).2
    ⟨_, _, c, hhead, hlisting, hbuild, rfl, rfl⟩
  obtain ⟨packed, entries, -, -, -, -, hagree⟩ :=
    revision_eq_localCommit?_iff hsnapshot rfl (isDirect_of_isSome hloose)
  exact ⟨_, _, hsnapshot, rfl, hplain, (hagree hplain).2 (.inl hloose)⟩

/-- Without a loose file HEAD has the id of the first line and the collection that of the last. -/
theorem revision_ne_localCommit?_packed :
    ∃ s w', readSnapshot .files ⟨packedTwice, .empty⟩ sharedLayout .unrestricted = (.ok s, w') ∧
      s.head.branch = some topic ∧
      IsDirect packedTwice sharedLayout topic ∧ s.head.revision = some (.ofNumber 1) ∧
      s.branches.localCommit? topic.text = some (.ofNumber 2) := by
  have hpacked : packedRefs packedTwice sharedLayout =
      .ok [((RefName.ofBranch topic).text, .ofNumber 1),
        ((RefName.ofBranch topic).text, .ofNumber 2)] := by
    decide +kernel
  have hmissing : packedTwice.readText (branchFile sharedLayout topic) = .error .notFound := by
    decide +kernel
  have hresolve : resolveRef packedTwice sharedLayout (RefName.ofBranch topic).text =
      .ok (some (.ofNumber 1)) := by
    rw [resolveRef_of_missing hmissing, packedLookup, hpacked]
    decide
  have htext : readOptional packedTwice sharedLayout.head =
      .ok (some "ref: refs/heads/topic\n") := by
    decide +kernel
  have hhead := head_of_symbolic htext (by decide +kernel) hresolve
  have hheads : listRefs packedTwice sharedLayout RefName.heads =
      .ok [(.ofBranch topic, .ofNumber 2)] := by
    rw [listRefs_of_packed hpacked (by decide +kernel)]
    decide +kernel
  have hremotes : listRefs packedTwice sharedLayout RefName.remotes = .ok [] := by
    rw [listRefs_of_packed hpacked (by decide +kernel)]
    decide +kernel
  have hlisting := listing_topic (by decide +kernel) hheads hremotes
  obtain ⟨c, hbuild, hlocals, -⟩ := Catalog.build_of_nodup ⟨"/r"⟩
    ⟨[⟨topic, .ofNumber 2, none⟩], [], []⟩ (by simp) (by simp) (by simp)
  have hsnapshot := (readSnapshot_files_eq_ok_iff ⟨packedTwice, .empty⟩ sharedLayout .unrestricted).2
    ⟨_, _, c, hhead, hlisting, hbuild, rfl, rfl⟩
  have hcommit : c.localCommit? topic.text = some (.ofNumber 2) := by
    rw [BranchCollection.localCommit?_eq_some_iff, hlocals.mem_iff]
    exact List.mem_cons_self
  exact ⟨_, _, hsnapshot, rfl, isDirect_of_error hmissing, rfl, hcommit⟩

end WorktreeTracker.PlainReader
