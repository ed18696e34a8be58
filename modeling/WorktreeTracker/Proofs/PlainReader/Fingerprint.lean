import WorktreeTracker.Proofs.PlainReader.Listing
import WorktreeTracker.Proofs.Snapshot

/-!
# Fingerprints of listed branches

Every branch that the plain reader lists has a reference of its own, and the whole name of a
reference after `refs/remotes/` keeps the rules. So the remotes of a collection built from a listing
are named without the marks that separate the texts of a fingerprint, and no two of its branches have
one full name. What is hashed for its snapshot then tells the branches by their full names, HEAD and
the displayed operation. It tells no more: where a remote ends in a full name is not hashed.
-/

namespace WorktreeTracker

/-! ## Branches by their full names -/

namespace BranchCollection

/-- What is shown of the local branch with the reference `name`: its commit, and the branch it tracks
as displayed. -/
def localRef? (c : BranchCollection) (name : RefName) : Option (Oid × Option String) :=
  (c.locals.entries.find? fun e => RefName.ofBranch e.1.name = name).map
    fun e => Snapshot.shownLocal e.2

/-- The commit of the remote-tracking branch with the reference `name`. -/
def trackedRef? (c : BranchCollection) (name : RefName) : Option Oid :=
  (c.tracked.entries.find? fun e => RefName.ofRemoteBranch e.1.remote e.1.name = name).map Prod.snd

variable {c c' : BranchCollection}

/-- A local branch is found under its reference. -/
theorem localRef?_ofBranch (b : LocalBranch) :
    c.localRef? (.ofBranch b.name) = (c.locals.find? b).map Snapshot.shownLocal := by
  have hkey (e : LocalBranch × LocalEntry) :
      RefName.ofBranch e.1.name = .ofBranch b.name ↔ e.1 = b :=
    ⟨fun h => Snapshot.ofBranch_text_inj (congrArg RefName.text h), fun h => h ▸ rfl⟩
  simp only [localRef?, hkey]
  rw [OrderedMap.find?_entries, Option.map_map]
  rfl

/-- Nothing else is found. -/
theorem localRef?_eq_none {name : RefName} (h : ∀ b : LocalBranch, name ≠ .ofBranch b.name) :
    c.localRef? name = none := by
  rw [localRef?, Option.map_eq_none_iff, List.find?_eq_none]
  intro e _ heq
  exact h e.1 (of_decide_eq_true heq).symm

/-- The local branches are shown in the same way when they are so under their references. -/
theorem localRef?_eq_iff : c.localRef? = c'.localRef? ↔
    ∀ b, (c.locals.find? b).map Snapshot.shownLocal =
      (c'.locals.find? b).map Snapshot.shownLocal := by
  simp only [← localRef?_ofBranch]
  refine ⟨fun h b => congrFun h _, fun h => funext fun name => ?_⟩
  by_cases hname : ∃ b : LocalBranch, name = .ofBranch b.name
  · obtain ⟨b, rfl⟩ := hname
    exact h b
  · rw [not_exists] at hname
    rw [localRef?_eq_none hname, localRef?_eq_none hname]

theorem ofRemoteBranch_eq_iff {r : RemoteBranch} {display : String} :
    RefName.ofRemoteBranch r.remote r.name = ⟨RefName.remotes ++ display⟩ ↔
      r.display = display := by
  simp [RefName.ofRemoteBranch, RemoteBranch.display, String.append_assoc]

/-- Nothing is found outside `refs/remotes/`. -/
theorem trackedRef?_eq_none {name : RefName}
    (h : ∀ display, name ≠ ⟨RefName.remotes ++ display⟩) : c.trackedRef? name = none := by
  rw [trackedRef?, Option.map_eq_none_iff, List.find?_eq_none]
  intro e _ heq
  rw [← of_decide_eq_true heq] at h
  exact h e.1.display (ofRemoteBranch_eq_iff.2 rfl)

/-- Of the entries at most one is shown as a name when no two branches are shown alike. -/
theorem ShownOnce.filter_display (h : c.ShownOnce) (display : String) :
    (c.tracked.entries.filter fun e => e.1.display = display) =
      (c.tracked.entries.find? fun e => e.1.display = display).toList := by
  cases hfound : c.tracked.entries.find? fun e => e.1.display = display with
  | none =>
    rw [List.find?_eq_none] at hfound
    exact List.filter_eq_nil_iff.2 hfound
  | some first =>
    have hfirst := List.find?_some hfound
    have hmem := List.mem_of_find?_eq_some hfound
    -- an entry that is shown so has the branch of the first one, and keys are there once
    have hkey (e : RemoteBranch × Oid) (he : e ∈ c.tracked.entries) :
        e.1.display = display ↔ e.1 = first.1 := by
      refine ⟨fun heq => ?_, fun heq => heq ▸ of_decide_eq_true hfirst⟩
      exact h _ (List.mem_map_of_mem he) _ (List.mem_map_of_mem hmem)
        (heq.trans (of_decide_eq_true hfirst).symm)
    rw [List.filter_congr fun e he => decide_eq_decide.2 (hkey e he), OrderedMap.filter_key,
      OrderedMap.find?_eq_some_iff.2 hmem]
    rfl

/-- A remote-tracking branch is found under its reference when no two are shown alike. -/
theorem ShownOnce.trackedRef?_ofRemoteBranch (h : c.ShownOnce) {r : RemoteBranch} {oid : Oid}
    (hfound : c.tracked.find? r = some oid) :
    c.trackedRef? (.ofRemoteBranch r.remote r.name) = some oid := by
  have hmem := OrderedMap.find?_eq_some_iff.1 hfound
  have hfilter : (r, oid) ∈ c.tracked.entries.filter fun e => e.1.display = r.display :=
    List.mem_filter.2 ⟨hmem, decide_eq_true rfl⟩
  rw [h.filter_display, Option.mem_toList] at hfilter
  rw [trackedRef?, ofRemoteBranch_eq_iff.2 rfl]
  simp only [ofRemoteBranch_eq_iff]
  exact Option.map_eq_some_iff.2 ⟨_, hfilter, rfl⟩

end BranchCollection

namespace Snapshot

variable {p q : Snapshot}

theorem shownTracked_eq (h : p.branches.ShownOnce) (display : String) :
    p.shownTracked display = (p.branches.trackedRef? ⟨RefName.remotes ++ display⟩).toList := by
  rw [shownTracked, h.filter_display, BranchCollection.trackedRef?]
  simp only [BranchCollection.ofRemoteBranch_eq_iff]
  cases p.branches.tracked.entries.find? fun e => e.1.display = display <;> rfl

/-- The remote-tracking branches are shown in the same way when they have the same commits under
their references. -/
theorem trackedRef?_eq_iff (hp : p.branches.ShownOnce) (hq : q.branches.ShownOnce) :
    p.branches.trackedRef? = q.branches.trackedRef? ↔
      ∀ name, p.shownTracked name = q.shownTracked name := by
  constructor
  · intro h display
    rw [shownTracked_eq hp, shownTracked_eq hq, h]
  · intro h
    funext name
    by_cases hname : ∃ display, name = ⟨RefName.remotes ++ display⟩
    · obtain ⟨display, rfl⟩ := hname
      have hshown := h display
      rw [shownTracked_eq hp, shownTracked_eq hq] at hshown
      have hhead := congrArg List.head? hshown
      rwa [Option.head?_toList, Option.head?_toList] at hhead
    · rw [not_exists] at hname
      rw [BranchCollection.trackedRef?_eq_none hname, BranchCollection.trackedRef?_eq_none hname]

/-- Snapshots whose branches are shown once look alike when they have the same under every full name,
the same HEAD and the same displayed operation. -/
theorem looksLike_iff_refs (hp : p.branches.ShownOnce) (hq : q.branches.ShownOnce) :
    p.LooksLike q ↔ p.branches.localRef? = q.branches.localRef? ∧
      p.branches.trackedRef? = q.branches.trackedRef? ∧ p.head = q.head ∧
        p.state.display = q.state.display := by
  rw [BranchCollection.localRef?_eq_iff, trackedRef?_eq_iff hp hq]
  exact ⟨fun h => ⟨h.locals, h.tracked, h.head, h.state⟩, fun ⟨hl, ht, hh, hs⟩ => ⟨hl, ht, hh, hs⟩⟩

end Snapshot

/-! ## Collections of listings -/

namespace PlainReader

variable {t : FileTree} {l : Layout} {remotes : List Remote} {upstream : Upstream}
  {listing : Listing} {options : CatalogOptions} {root : Path} {c : BranchCollection}

/-- A listed remote-tracking branch is shown as a name that keeps the rules. -/
theorem keeps_display_of_listing (h : listingOf t l remotes upstream = .ok listing)
    {e : RemoteRef} (he : e ∈ listing.tracked) :
    NameProblem.Keeps (Catalog.trackedKey e).display := by
  obtain ⟨locals, -, h⟩ := bind_eq_ok.1 h
  obtain ⟨tracked, htracked, h⟩ := bind_eq_ok.1 h
  obtain rfl := Except.ok.inj h
  obtain ⟨refs, hrefs, hmap, -⟩ := trackedBranchesOf_eq_ok htracked
  have hmem : trackedRef e ∈ refs :=
    (List.mem_filter.1 (hmap ▸ List.mem_map_of_mem he)).1
  obtain ⟨rest, hrest, hkeeps⟩ := leads_remotes.named_listRefs hrefs _ hmem
  rw [trackedRef_fst] at hrest
  rwa [(String.append_right_inj _).1 hrest]

/-- No two listed remote-tracking branches are shown alike. -/
theorem shownOnce_of_listing (h : listingOf t l remotes upstream = .ok listing)
    (hbuild : Catalog.build options root listing = .ok c) : c.ShownOnce := by
  obtain ⟨locals, -, h⟩ := bind_eq_ok.1 h
  obtain ⟨tracked, htracked, h⟩ := bind_eq_ok.1 h
  obtain rfl := Except.ok.inj h
  refine (Catalog.shownOnce_of_build hbuild).2 fun e he e' he' _ _ hdisplay => ?_
  have hsame : (trackedRef e).1 = (trackedRef e').1 := by
    rw [trackedRef_fst, trackedRef_fst, hdisplay]
  exact congrArg Catalog.trackedKey
    (List.inj_on_of_nodup_map (nodup_trackedBranchesOf htracked) he he' hsame)

/-- No control character is in the name of a remote that a listed branch is of. -/
theorem not_mem_remote_of_listing (h : listingOf t l remotes upstream = .ok listing)
    (hbuild : Catalog.build options root listing = .ok c) {r : RemoteBranch}
    (hr : r ∈ c.tracked.keys) {char : Char} (hcontrol : Text.isControl char = true) :
    char ∉ r.remote.toList := by
  obtain ⟨e, he, -, rfl⟩ := (Catalog.mem_tracked_of_build hbuild).1 hr
  intro hmem
  have hdisplay : char ∈ (Catalog.trackedKey e).display.toList := by
    rw [RemoteBranch.display, String.append_assoc, String.toList_append]
    exact List.mem_append_left _ hmem
  have hplain := (keeps_display_of_listing h he).control char hdisplay
  cases hplain.symm.trans hcontrol

/-- A tracked branch is one of the collection. -/
theorem mem_keys_of_tracking (hbuild : Catalog.build options root listing = .ok c)
    {e : LocalBranch × LocalEntry} (he : e ∈ c.locals.entries) {r : RemoteBranch}
    (hr : e.2.tracking = some r) : r ∈ c.tracked.keys := by
  have hfound := OrderedMap.find?_eq_some_iff.2 he
  rw [Catalog.find?_locals_of_build hbuild] at hfound
  obtain ⟨entry, -, hentry⟩ := Option.map_eq_some_iff.1 hfound
  rw [← hentry, Catalog.localEntry, Option.filter_eq_some_iff] at hr
  obtain ⟨oid, hoid⟩ := Option.isSome_iff_exists.1 hr.2
  exact OrderedMap.mem_keys_iff.2 ⟨oid, hoid⟩

end PlainReader

/-! ## Snapshots of listings -/

namespace Snapshot

/-- The snapshot is one that a refresh makes with branches listed by the plain reader, whatever
remotes and tracked branches the configuration names. -/
inductive OfListing : Snapshot → Prop
  | mk {t : FileTree} {l : Layout} {remotes : List Remote} {upstream : PlainReader.Upstream}
    {listing : Listing} {options : CatalogOptions} {root : Path} {c : BranchCollection}
    (listed : PlainReader.listingOf t l remotes upstream = .ok listing)
    (built : Catalog.build options root listing = .ok c) (layout : Layout) (head : Head)
    (state : OperationState) (shown : List Remote) : OfListing (.fresh layout c head state shown)

/-- Among these remotes and tracked branches are those that the configuration of the clone names. -/
theorem OfListing.of_config {t : FileTree} {l : Layout} {listing : Listing}
    {options : CatalogOptions} {root : Path} {c : BranchCollection}
    (listed : PlainReader.listing t l = .ok listing)
    (built : Catalog.build options root listing = .ok c) (layout : Layout) (head : Head)
    (state : OperationState) (shown : List Remote) : OfListing (.fresh layout c head state shown) := by
  obtain ⟨settings, -, hlisting⟩ := bind_eq_ok.1 listed
  exact .mk hlisting built layout head state shown

variable {s p q : Snapshot}

theorem OfListing.shownOnce (h : s.OfListing) : s.branches.ShownOnce := by
  obtain ⟨hlisting, hbuild⟩ := h
  exact PlainReader.shownOnce_of_listing hlisting hbuild

/-- The remotes of listed branches are named without the marks that separate the texts. -/
theorem OfListing.plain (h : s.OfListing) : s.Plain := by
  obtain ⟨hlisting, hbuild⟩ := h
  constructor
  · intro e he
    exact PlainReader.not_mem_remote_of_listing hlisting hbuild (List.mem_map_of_mem he) (by decide)
  · intro e he r hr
    exact PlainReader.not_mem_remote_of_listing hlisting hbuild
      (PlainReader.mem_keys_of_tracking hbuild he hr) (by decide)

/-- The fingerprint of a snapshot made of a listing is the digest of its bytes, and each of its
branches is found under its full name. The same bytes are hashed for two such snapshots exactly when
both have the same commit and displayed upstream under the full name of every local branch, the same
commit under the full name of every remote-tracking branch, the same HEAD and the same displayed
operation. -/
theorem hashed_eq_iff_refs :
    (∀ s : Snapshot, s.OfListing →
      s.fingerprint = some ⟨Digest.Sha256.digest s.hashed⟩ ∧
      (∀ b, s.branches.localRef? (.ofBranch b.name) =
        (s.branches.locals.find? b).map shownLocal) ∧
      ∀ r oid, s.branches.tracked.find? r = some oid →
        s.branches.trackedRef? (.ofRemoteBranch r.remote r.name) = some oid) ∧
    ∀ p q : Snapshot, p.OfListing → q.OfListing →
      (p.hashed = q.hashed ↔
        p.branches.localRef? = q.branches.localRef? ∧
          p.branches.trackedRef? = q.branches.trackedRef? ∧ p.head = q.head ∧
            p.state.display = q.state.display) := by
  refine ⟨fun s hs => ⟨?_, BranchCollection.localRef?_ofBranch, ?_⟩, fun p q hp hq => ?_⟩
  · obtain ⟨-, -⟩ := hs
    rfl
  · exact fun r oid => hs.shownOnce.trackedRef?_ofRemoteBranch
  · exact (hashed_eq_iff hp.plain hq.plain).trans (looksLike_iff_refs hp.shownOnce hq.shownOnce)

/-! ### One reference of two remotes -/

theorem main_valid : NameProblem.find? "main" = none := by decide

/-- The name of the branch that a clone with nested remotes has. -/
def mainName : BranchName := ⟨"main", main_valid⟩

/-- The branch of the inner remote that the clone has. -/
def innerMain : RemoteBranch := ⟨"team/eu", mainName⟩

/-- The branch with the same reference when only the outer remote is configured. -/
def outerMain : RemoteBranch := ⟨"team", ⟨"eu/main", by decide⟩⟩

/-- The collection with the local branch of the clone and a remote-tracking branch. -/
def cloneBranches (r : RemoteBranch) : BranchCollection where
  locals := .ofList [(⟨mainName⟩, ⟨.ofNumber 1, none⟩)]
  tracked := .ofList [(r, .ofNumber 2)]

/-- A snapshot of the clone on its local branch. -/
def cloneSnapshot (r : RemoteBranch) (state : OperationState) : Snapshot :=
  .fresh PlainReader.sharedLayout (cloneBranches r) ⟨some mainName, some (.ofNumber 1)⟩
    state [⟨r.remote, []⟩]

/-- The clone is listed with either branch, whichever remote is configured. -/
theorem ofListing_cloneSnapshot {r : RemoteBranch} (hr : r ∈ [innerMain, outerMain])
    (state : OperationState) : (cloneSnapshot r state).OfListing := by
  have hlocals : PlainReader.localBranchesOf PlainReader.sharedClone PlainReader.sharedLayout
      (fun _ => .ok none) = .ok [⟨mainName, .ofNumber 1, none⟩] := by
    decide +kernel
  have htracked : PlainReader.listRefs PlainReader.sharedClone PlainReader.sharedLayout
      RefName.remotes = .ok [(⟨"refs/remotes/gone/main"⟩, .ofNumber 3),
        (⟨"refs/remotes/team/eu/main"⟩, .ofNumber 2)] := by
    decide +kernel
  have hlisting : PlainReader.listingOf PlainReader.sharedClone PlainReader.sharedLayout
      [⟨r.remote, []⟩] (fun _ => .ok none) =
        .ok ⟨[⟨mainName, .ofNumber 1, none⟩], [⟨r.remote, r.name, .ofNumber 2⟩],
          [⟨r.remote, []⟩]⟩ := by
    refine bind_eq_ok.2 ⟨_, hlocals, bind_eq_ok.2 ⟨_, bind_eq_ok.2 ⟨_, htracked, ?_⟩, rfl⟩⟩
    have hnames : PlainReader.byLength [⟨r.remote, []⟩] = [r.remote] := by
      simp [PlainReader.byLength]
    rw [hnames]
    rcases List.mem_pair.1 hr with rfl | rfl <;> decide +kernel
  have hbuild : Catalog.build .unrestricted ⟨"/r"⟩ ⟨[⟨mainName, .ofNumber 1, none⟩],
      [⟨r.remote, r.name, .ofNumber 2⟩], [⟨r.remote, []⟩]⟩ = .ok (cloneBranches r) := by
    rcases List.mem_pair.1 hr with rfl | rfl <;> decide +kernel
  exact .mk hlisting hbuild _ _ _ _

/-- The branch is of one remote or of the other, and the same bytes are hashed. With an operation in
progress they are others. -/
theorem hashed_eq_iff_refs_clone :
    (cloneSnapshot innerMain .clean).branches ≠ (cloneSnapshot outerMain .clean).branches ∧
      (cloneSnapshot innerMain .clean).hashed = (cloneSnapshot outerMain .clean).hashed ∧
      (cloneSnapshot innerMain .clean).hashed ≠ (cloneSnapshot innerMain .merge).hashed := by
  have hinner (state : OperationState) : (cloneSnapshot innerMain state).OfListing :=
    ofListing_cloneSnapshot List.mem_cons_self state
  have houter : (cloneSnapshot outerMain .clean).OfListing :=
    ofListing_cloneSnapshot (List.mem_cons_of_mem _ List.mem_cons_self) .clean
  refine ⟨by decide, ?_, fun heq => ?_⟩
  · refine (hashed_eq_iff_refs.2 _ _ (hinner .clean) houter).2 ⟨rfl, funext fun name => ?_, rfl, rfl⟩
    have hsame : RefName.ofRemoteBranch innerMain.remote innerMain.name =
        RefName.ofRemoteBranch outerMain.remote outerMain.name := by decide
    show Option.map _ (List.find? _ [(innerMain, _)]) = Option.map _ (List.find? _ [(outerMain, _)])
    simp only [List.find?_singleton, hsame]
    split <;> rfl
  · have hstate := ((hashed_eq_iff_refs.2 _ _ (hinner .clean) (hinner .merge)).1 heq).2.2.2
    exact absurd hstate (by decide)

end Snapshot

end WorktreeTracker
