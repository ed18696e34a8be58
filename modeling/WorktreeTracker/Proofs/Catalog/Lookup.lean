import WorktreeTracker.Proofs.Catalog.Conflict
import WorktreeTracker.Proofs.Text

/-!
# Looking branches up by name

A local branch is shown as its name, and a remote-tracking branch as its remote and its name with a
slash between them. Both may have slashes in them, so two remote-tracking branches can be shown
alike: the remote of one is then that of the other with more after a slash, and a lookup finds the
branch of the shortest remote. Every branch is reached under its name exactly when no two are shown
alike.
-/

namespace WorktreeTracker

/-! ## Branches that are shown alike -/

theorem LocalBranch.display_inj {a b : LocalBranch} : a.display = b.display ↔ a = b := by
  obtain ⟨⟨name, valid⟩⟩ := a
  obtain ⟨⟨name', valid'⟩⟩ := b
  simp [display]

namespace RemoteBranch

variable {a b : RemoteBranch}

/-- Of two branches that are shown alike one has the longer remote, unless they are the same. -/
theorem eq_or_longer_of_display (h : a.display = b.display) :
    a = b ∨ (∃ more, b.remote = a.remote ++ "/" ++ more) ∨
      ∃ more, a.remote = b.remote ++ "/" ++ more := by
  refine (Text.eq_or_longer_of_append_eq h).imp_left fun hremote => ?_
  obtain ⟨remote, name, valid⟩ := a
  obtain ⟨remote', name', valid'⟩ := b
  obtain rfl : remote = remote' := hremote
  have hname : name = name' := (String.append_right_inj _).1 h
  rw [RemoteBranch.mk.injEq, BranchName.mk.injEq]
  exact ⟨rfl, hname⟩

theorem size_lt_of_longer {a b more : String} (h : b = a ++ "/" ++ more) :
    a.utf8ByteSize < b.utf8ByteSize := by
  have hslash : "/".utf8ByteSize = 1 := rfl
  rw [h, String.utf8ByteSize_append, String.utf8ByteSize_append, hslash]
  omega

/-- Branches that are shown alike and have remotes of one length are the same. -/
theorem eq_of_display (h : a.display = b.display)
    (hsize : a.remote.utf8ByteSize = b.remote.utf8ByteSize) : a = b := by
  rcases eq_or_longer_of_display h with heq | ⟨more, hlonger⟩ | ⟨more, hlonger⟩
  · exact heq
  · exact absurd hsize (Nat.ne_of_lt (size_lt_of_longer hlonger))
  · exact absurd hsize (Nat.ne_of_gt (size_lt_of_longer hlonger))

/-- The branches of a remote come before those of a longer one. -/
theorem compare_lt_of_longer {more : String} (h : b.remote = a.remote ++ "/" ++ more) :
    compare a b = .lt := by
  have hchars : a.remote.toList < b.remote.toList := by
    have hempty : a.remote.toList ++ [] < a.remote.toList ++ '/' :: more.toList :=
      List.append_left_lt (List.nil_lt_cons _ _)
    simpa [h] using hempty
  have hremote : compare a.remote b.remote = .lt := if_pos (String.lt_iff.2 hchars)
  show (compare a.remote b.remote).then _ = _
  rw [hremote]
  rfl

end RemoteBranch

namespace BranchCollection

variable {c : BranchCollection} {name : String}

/-! ## Lookups of local branches -/

/-- A local branch is in the collection when it has a commit there. -/
theorem mem_locals_iff {b : LocalBranch} :
    b ∈ c.locals.keys ↔ ∃ oid, c.commit? (.ofLocal b) = some oid := by
  simp [OrderedMap.mem_keys_iff, commit?]

/-- The local branch that is found under a name is the one that is shown so. -/
theorem findLocal?_eq_some_iff {b : LocalBranch} :
    c.findLocal? name = some b ↔ b ∈ c.locals.keys ∧ b.display = name := by
  constructor
  · intro h
    have hdisplay := List.find?_some h
    exact ⟨List.mem_of_find?_eq_some h, of_decide_eq_true hdisplay⟩
  · rintro ⟨hmem, rfl⟩
    obtain ⟨found, hfound⟩ := Option.isSome_iff_exists.1
      ((List.find?_isSome (p := fun other => decide (other.display = b.display))).2
        ⟨b, hmem, decide_eq_true rfl⟩)
    have hdisplay := List.find?_some hfound
    rwa [LocalBranch.display_inj.1 (of_decide_eq_true hdisplay)] at hfound

/-- Every local branch is found under its name, with its commit. -/
theorem localCommit?_display {b : LocalBranch} (h : b ∈ c.locals.keys) :
    c.localCommit? b.display = c.commit? (.ofLocal b) := by
  rw [localCommit?, findLocal?_eq_some_iff.2 ⟨h, rfl⟩, Option.bind_some]

/-- A commit is found under the names that a local branch is found under. -/
theorem isSome_localCommit? : (c.localCommit? name).isSome = (c.findLocal? name).isSome := by
  rw [localCommit?]
  cases hfound : c.findLocal? name with
  | none => rfl
  | some b =>
    obtain ⟨oid, hoid⟩ := mem_locals_iff.1 (findLocal?_eq_some_iff.1 hfound).1
    rw [Option.bind_some, hoid]
    rfl

/-! ## Lookups of remote-tracking branches -/

/-- A remote-tracking branch is in the collection when it has a commit there. -/
theorem mem_tracked_iff {r : RemoteBranch} :
    r ∈ c.tracked.keys ↔ ∃ oid, c.commit? (.ofRemote r) = some oid :=
  OrderedMap.mem_keys_iff

/-- A lookup passes over the branches that are not shown as the name. -/
theorem shown_iff {r : RemoteBranch} :
    (Text.after? r.remote name).bind (Text.after? "/") = some r.name.text ↔ r.display = name :=
  Text.after?_bind_after?_eq_some_iff.trans eq_comm

/-- Something is found under the names that a remote-tracking branch is shown as. -/
theorem isSome_findRemote?_iff :
    (c.findRemote? name).isSome ↔ ∃ r ∈ c.tracked.keys, r.display = name := by
  rw [findRemote?, List.find?_isSome]
  simp only [decide_eq_true_eq, shown_iff]

/-- The remote-tracking branch that is found under a name is shown so and in the collection, and no
branch of a shorter remote is. -/
theorem of_findRemote?_eq_some {r : RemoteBranch} (h : c.findRemote? name = some r) :
    r ∈ c.tracked.keys ∧ r.display = name ∧ ∀ other ∈ c.tracked.keys, other.display = name →
      r.remote.utf8ByteSize ≤ other.remote.utf8ByteSize := by
  have hfound := List.find?_some h
  have hdisplay : r.display = name := shown_iff.1 (of_decide_eq_true hfound)
  refine ⟨List.mem_of_find?_eq_some h, hdisplay, fun other hmem hother => ?_⟩
  rcases OrderedMap.eq_or_lt_of_find?_keys h hmem (decide_eq_true (shown_iff.2 hother)) with
    rfl | hlt
  · exact Nat.le_refl _
  rcases RemoteBranch.eq_or_longer_of_display (hdisplay.trans hother.symm) with
    rfl | ⟨more, hlonger⟩ | ⟨more, hlonger⟩
  · exact Nat.le_refl _
  · exact Nat.le_of_lt (RemoteBranch.size_lt_of_longer hlonger)
  · -- the shorter remote comes first, so its branch would have been found
    have hgt := RemoteBranch.compare_lt_of_longer hlonger
    rw [Std.OrientedCmp.gt_iff_lt.2 hgt] at hlt
    cases hlt

/-- Under a name the branch of the shortest remote is found that is shown so. -/
theorem findRemote?_eq_some_iff {r : RemoteBranch} :
    c.findRemote? name = some r ↔ r ∈ c.tracked.keys ∧ r.display = name ∧
      ∀ other ∈ c.tracked.keys, other.display = name →
        r.remote.utf8ByteSize ≤ other.remote.utf8ByteSize := by
  refine ⟨of_findRemote?_eq_some, fun ⟨hmem, hdisplay, hshortest⟩ => ?_⟩
  obtain ⟨found, hfound⟩ := Option.isSome_iff_exists.1
    (isSome_findRemote?_iff.2 ⟨r, hmem, hdisplay⟩)
  obtain ⟨hmem', hdisplay', hshortest'⟩ := of_findRemote?_eq_some hfound
  have hsize := Nat.le_antisymm (hshortest found hmem' hdisplay') (hshortest' r hmem hdisplay)
  rw [hfound, RemoteBranch.eq_of_display (hdisplay.trans hdisplay'.symm) hsize]

/-- A commit is found under the names that a remote-tracking branch is found under. -/
theorem isSome_remoteCommit? : (c.remoteCommit? name).isSome = (c.findRemote? name).isSome := by
  rw [remoteCommit?]
  cases hfound : c.findRemote? name with
  | none => rfl
  | some r =>
    obtain ⟨oid, hoid⟩ := mem_tracked_iff.1 (of_findRemote?_eq_some hfound).1
    rw [Option.bind_some, hoid]
    rfl

/-- No two remote-tracking branches of the collection are shown alike. -/
def ShownOnce (c : BranchCollection) : Prop :=
  ∀ r ∈ c.tracked.keys, ∀ other ∈ c.tracked.keys, r.display = other.display → r = other

/-- Every remote-tracking branch is found under its name, with its commit, when no two are shown
alike. -/
theorem ShownOnce.reached (h : c.ShownOnce) {r : RemoteBranch} (hmem : r ∈ c.tracked.keys) :
    c.findRemote? r.display = some r ∧
      c.remoteCommit? r.display = c.commit? (.ofRemote r) := by
  have hfound : c.findRemote? r.display = some r := by
    refine findRemote?_eq_some_iff.2 ⟨hmem, rfl, fun other hother hdisplay => ?_⟩
    obtain rfl := h other hother r hmem hdisplay
    exact Nat.le_refl _
  exact ⟨hfound, by rw [remoteCommit?, hfound, Option.bind_some]⟩

/-- Only then every remote-tracking branch is found under its name. -/
theorem shownOnce_of_reached
    (h : ∀ r ∈ c.tracked.keys, c.findRemote? r.display = some r) : c.ShownOnce := by
  intro r hr other hother hdisplay
  have hfound := h r hr
  rw [hdisplay, h other hother] at hfound
  exact (Option.some.inj hfound).symm

end BranchCollection

/-! ## Collections of a listing -/

namespace Catalog

variable {options : CatalogOptions} {root : Path} {listing : Listing} {c : BranchCollection}

/-- No two remote-tracking branches are shown alike, of those listed for a configured remote that is
left in. -/
def ShownOnce (options : CatalogOptions) (listing : Listing) : Prop :=
  ∀ e ∈ listing.tracked, ∀ e' ∈ listing.tracked,
    e.remote ∈ configured options listing.remotes →
      e'.remote ∈ configured options listing.remotes →
        (trackedKey e).display = (trackedKey e').display → trackedKey e = trackedKey e'

/-- The remote-tracking branches are the listed ones of the remotes that count. -/
theorem mem_tracked_of_build (h : build options root listing = .ok c) {r : RemoteBranch} :
    r ∈ c.tracked.keys ↔ ∃ e ∈ listing.tracked,
      e.remote ∈ configured options listing.remotes ∧ trackedKey e = r := by
  simp [BranchCollection.mem_tracked_iff, commit?_ofRemote_of_build h, mem_configured, and_assoc]

theorem shownOnce_of_build (h : build options root listing = .ok c) :
    c.ShownOnce ↔ ShownOnce options listing := by
  constructor
  · intro honce e he e' he' hremote hremote' hdisplay
    exact honce _ ((mem_tracked_of_build h).2 ⟨e, he, hremote, rfl⟩) _
      ((mem_tracked_of_build h).2 ⟨e', he', hremote', rfl⟩) hdisplay
  · intro honce r hr other hother hdisplay
    obtain ⟨e, he, hremote, rfl⟩ := (mem_tracked_of_build h).1 hr
    obtain ⟨e', he', hremote', rfl⟩ := (mem_tracked_of_build h).1 hother
    exact honce e he e' he' hremote hremote' hdisplay

/-- A lookup by name finds a local branch, and its commit, exactly under the names that one of the
collection is shown as, and so it is for remote-tracking branches. Every local branch is found under
its own name, with its own commit. Of the remote-tracking branches that are shown as a name the one
with the shortest remote is found, so every one is found under its own name, with its own commit,
exactly when no two that are listed for remotes which count are shown alike. -/
theorem lookups_of_build (h : build options root listing = .ok c) :
    (∀ name, ((c.findLocal? name).isSome ↔ ∃ b ∈ c.locals.keys, b.display = name) ∧
      ((c.localCommit? name).isSome ↔ ∃ b ∈ c.locals.keys, b.display = name)) ∧
    (∀ name, ((c.findRemote? name).isSome ↔ ∃ r ∈ c.tracked.keys, r.display = name) ∧
      ((c.remoteCommit? name).isSome ↔ ∃ r ∈ c.tracked.keys, r.display = name)) ∧
    (∀ b ∈ c.locals.keys, c.findLocal? b.display = some b ∧
      c.localCommit? b.display = c.commit? (.ofLocal b)) ∧
    (∀ name r, c.findRemote? name = some r ↔ r ∈ c.tracked.keys ∧ r.display = name ∧
      ∀ other ∈ c.tracked.keys, other.display = name →
        r.remote.utf8ByteSize ≤ other.remote.utf8ByteSize) ∧
    ((∀ r ∈ c.tracked.keys, c.findRemote? r.display = some r ∧
        c.remoteCommit? r.display = c.commit? (.ofRemote r)) ↔
      ShownOnce options listing) := by
  have hlocal (name : String) :
      (c.findLocal? name).isSome ↔ ∃ b ∈ c.locals.keys, b.display = name := by
    simp [Option.isSome_iff_exists, BranchCollection.findLocal?_eq_some_iff]
  refine ⟨fun name => ⟨hlocal name, ?_⟩, fun name => ⟨?_, ?_⟩, fun b hb => ⟨?_, ?_⟩, ?_, ?_⟩
  · rw [BranchCollection.isSome_localCommit?]
    exact hlocal name
  · exact BranchCollection.isSome_findRemote?_iff
  · rw [BranchCollection.isSome_remoteCommit?]
    exact BranchCollection.isSome_findRemote?_iff
  · exact BranchCollection.findLocal?_eq_some_iff.2 ⟨hb, rfl⟩
  · exact BranchCollection.localCommit?_display hb
  · exact fun name r => BranchCollection.findRemote?_eq_some_iff
  · rw [← shownOnce_of_build h]
    constructor
    · exact fun hreached => BranchCollection.shownOnce_of_reached fun r hr => (hreached r hr).1
    · exact fun honce r hr => honce.reached hr

/-- A listing with a local branch and a branch of each of two remotes, one of them in the other. -/
def nestedListing (outer inner : BranchName) : Listing where
  locals := [⟨.master, .ofNumber 3, none⟩]
  tracked := [⟨"team", outer, .ofNumber 1⟩, ⟨"team/eu", inner, .ofNumber 2⟩]
  remotes := [⟨"team", []⟩, ⟨"team/eu", []⟩]

/-- The collection of the listing. -/
def nestedCollection (outer inner : BranchName) : BranchCollection where
  locals := .ofList [(⟨.master⟩, ⟨.ofNumber 3, none⟩)]
  tracked := .ofList [(⟨"team", outer⟩, .ofNumber 1), (⟨"team/eu", inner⟩, .ofNumber 2)]

/-- The branches of both remotes are found when they are shown as different names. -/
theorem lookups_of_build_nested :
    build .unrestricted ⟨"/r"⟩ (nestedListing .master .master) =
        .ok (nestedCollection .master .master) ∧
      (nestedCollection .master .master).findRemote? "team/eu/master" =
        some ⟨"team/eu", .master⟩ ∧
      (nestedCollection .master .master).remoteCommit? "team/master" = some (.ofNumber 1) ∧
      (nestedCollection .master .master).remoteCommit? "team/eu/master" = some (.ofNumber 2) := by
  have h : build .unrestricted ⟨"/r"⟩ (nestedListing .master .master) =
      .ok (nestedCollection .master .master) := by
    decide +kernel
  obtain ⟨-, -, -, -, hreached⟩ := lookups_of_build h
  have honce : ShownOnce .unrestricted (nestedListing .master .master) := by
    unfold ShownOnce
    decide
  have houter := hreached.2 honce ⟨"team", .master⟩ (by decide)
  have hinner := hreached.2 honce ⟨"team/eu", .master⟩ (by decide)
  exact ⟨h, hinner.1, houter.2, hinner.2⟩

/-- A branch of the outer remote is shown as the one of the inner remote is: under the name of both
the outer remote's is found, and the other cannot be reached. -/
theorem lookups_hidden :
    ∃ outer : BranchName, outer.text = "eu/master" ∧
      build .unrestricted ⟨"/r"⟩ (nestedListing outer .master) =
        .ok (nestedCollection outer .master) ∧
      (⟨"team/eu", .master⟩ : RemoteBranch) ∈ (nestedCollection outer .master).tracked.keys ∧
      (∀ name, (nestedCollection outer .master).findRemote? name ≠
        some ⟨"team/eu", .master⟩) ∧
      (nestedCollection outer .master).remoteCommit? "team/eu/master" = some (.ofNumber 1) ∧
      (nestedCollection outer .master).commit? (.ofRemote ⟨"team/eu", .master⟩) =
        some (.ofNumber 2) := by
  refine ⟨⟨"eu/master", by decide⟩, rfl, by decide +kernel, by decide, fun name hfound => ?_,
    by decide +kernel, by decide⟩
  obtain ⟨-, rfl, hshortest⟩ := BranchCollection.of_findRemote?_eq_some hfound
  have hsize := hshortest ⟨"team", ⟨"eu/master", by decide⟩⟩ (by decide) (by decide)
  exact absurd hsize (by decide)

end Catalog

end WorktreeTracker
