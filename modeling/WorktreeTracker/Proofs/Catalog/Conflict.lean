import WorktreeTracker.Proofs.Catalog

/-!
# Listings with conflicts

A listing is refused exactly when it names a branch that counts with two commits. What is built from
any other listing holds the branches that are listed and count, each with the commit that it is
listed with. Both kinds of branches are added one listed entry after the other, so what the steps
have in common is told once, as `Collects`, and carried along the entries.
-/

namespace WorktreeTracker

namespace Catalog

/-! ## Adding entries one after the other -/

section

variable {α κ μ : Type}

/-- A step adds the commit of an entry that counts to those that were collected. It refuses the
entry when its branch has another commit already, and leaves what was collected as it is. -/
structure Collects (root : Path) (step : μ → α → Except TrackError μ) (commit? : μ → κ → Option Oid)
    (counts : α → Prop) (key : α → κ) (oid : α → Oid) (display : κ → String) : Prop where
  /-- A branch without a commit gets the one of an entry that counts. -/
  added : ∀ {m e m'}, step m e = .ok m' → counts e → commit? m (key e) = none →
    commit? m' (key e) = some (oid e)
  /-- What is added is the commit of an entry that counts. -/
  collected : ∀ {m e m'}, step m e = .ok m' → ∀ {k o}, commit? m' k = some o →
    commit? m k = some o ∨ counts e ∧ key e = k ∧ oid e = o
  /-- A commit that was collected stays. -/
  kept : ∀ {m e m'}, step m e = .ok m' → ∀ {k o}, commit? m k = some o → commit? m' k = some o
  /-- An entry that counts is refused when its branch has another commit. -/
  refused : ∀ {m e err}, step m e = .error err ↔ counts e ∧ ∃ other,
    commit? m (key e) = some other ∧ other ≠ oid e ∧
      err = conflict root (display (key e)) other (oid e)

namespace Collects

variable {root : Path} {step : μ → α → Except TrackError μ} {commit? : μ → κ → Option Oid}
  {counts : α → Prop} {key : α → κ} {oid : α → Oid} {display : κ → String}

/-- After a step the branch of an entry that counts has its commit. -/
theorem commit?_of_step (h : Collects root step commit? counts key oid display) {m m' : μ} {e : α}
    (hstep : step m e = .ok m') (he : counts e) : commit? m' (key e) = some (oid e) := by
  cases hfound : commit? m (key e) with
  | none => exact h.added hstep he hfound
  | some other =>
    by_cases hsame : other = oid e
    · rw [h.kept hstep hfound, hsame]
    · -- another commit would have been refused
      have hrefused := h.refused.2 ⟨he, other, hfound, hsame, rfl⟩
      cases hrefused.symm.trans hstep

/-- The commits that are collected are those of the entries that count, besides those that were
there. -/
theorem commit?_foldlM_iff (h : Collects root step commit? counts key oid display)
    {entries : List α} {m after : μ} (hfold : entries.foldlM step m = .ok after) {k : κ} {o : Oid} :
    commit? after k = some o ↔
      commit? m k = some o ∨ ∃ e ∈ entries, counts e ∧ key e = k ∧ oid e = o := by
  induction entries generalizing m with
  | nil =>
    obtain rfl := Except.ok.inj hfold
    simp
  | cons e rest ih =>
    rw [List.foldlM_cons] at hfold
    obtain ⟨next, hnext, hrest⟩ := bind_eq_ok.1 hfold
    rw [ih hrest]
    constructor
    · rintro (hfound | ⟨other, hother, hlisted⟩)
      · rcases h.collected hnext hfound with hbefore | hhere
        · exact .inl hbefore
        · exact .inr ⟨e, List.mem_cons_self, hhere⟩
      · exact .inr ⟨other, List.mem_cons_of_mem _ hother, hlisted⟩
    · rintro (hfound | ⟨other, hother, hcounts, rfl, rfl⟩)
      · exact .inl (h.kept hnext hfound)
      · rcases List.mem_cons.1 hother with rfl | hother
        · exact .inl (h.commit?_of_step hnext hcounts)
        · exact .inr ⟨other, hother, hcounts, rfl, rfl⟩

/-- An entry that is refused counts, and its branch has another commit: one that was there, or that
of an entry before it. -/
theorem refused_foldlM (h : Collects root step commit? counts key oid display) {entries : List α}
    {m : μ} {err : TrackError} (hfold : entries.foldlM step m = .error err) :
    ∃ e ∈ entries, counts e ∧ ∃ other, other ≠ oid e ∧
      err = conflict root (display (key e)) other (oid e) ∧
        (commit? m (key e) = some other ∨
          ∃ e' ∈ entries, counts e' ∧ key e' = key e ∧ oid e' = other) := by
  induction entries generalizing m with
  | nil => cases hfold
  | cons e rest ih =>
    rw [List.foldlM_cons, bind_eq_error] at hfold
    rcases hfold with hfirst | ⟨next, hnext, hrest⟩
    · obtain ⟨hcounts, other, hfound, hne, herr⟩ := h.refused.1 hfirst
      exact ⟨e, List.mem_cons_self, hcounts, other, hne, herr, .inl hfound⟩
    · obtain ⟨e', he', hcounts, other, hne, herr, hother⟩ := ih hrest
      refine ⟨e', List.mem_cons_of_mem _ he', hcounts, other, hne, herr, ?_⟩
      rcases hother with hfound | ⟨e'', he'', hlisted⟩
      · -- the commit was there before the first entry, or that entry brought it in
        rcases h.collected hnext hfound with hbefore | hhere
        · exact .inl hbefore
        · exact .inr ⟨e, List.mem_cons_self, hhere⟩
      · exact .inr ⟨e'', List.mem_cons_of_mem _ he'', hlisted⟩

/-- From nothing, entries are collected exactly when no branch that counts has two commits. -/
theorem exists_foldlM_iff (h : Collects root step commit? counts key oid display)
    (entries : List α) {m : μ} (hempty : ∀ k, commit? m k = none) :
    (∃ after, entries.foldlM step m = .ok after) ↔
      ∀ e ∈ entries, ∀ e' ∈ entries, counts e → counts e' → key e = key e' → oid e = oid e' := by
  constructor
  · rintro ⟨after, hfold⟩ e he e' he' hcounts hcounts' hkey
    have hfirst := (h.commit?_foldlM_iff hfold).2 (.inr ⟨e, he, hcounts, rfl, rfl⟩)
    have hsecond := (h.commit?_foldlM_iff hfold).2 (.inr ⟨e', he', hcounts', hkey.symm, rfl⟩)
    exact Option.some.inj (hfirst.symm.trans hsecond)
  · intro hsame
    cases hfold : entries.foldlM step m with
    | ok after => exact ⟨after, rfl⟩
    | error err =>
      obtain ⟨e, he, hcounts, other, hne, -, hother⟩ := h.refused_foldlM hfold
      rcases hother with hfound | ⟨e', he', hcounts', hkey, rfl⟩
      · cases (hempty _).symm.trans hfound
      · exact absurd (hsame e' he' e he hcounts' hcounts hkey) hne

end Collects

end

/-! ## The two kinds of branches -/

/-- Remote-tracking branches are collected for the remotes that count. -/
theorem collects_addTracked (root : Path) (configured : List String) :
    Collects root (addTracked root configured) OrderedMap.find? (fun e => e.remote ∈ configured)
      trackedKey RemoteRef.oid RemoteBranch.display where
  added hstep he hnone := by
    rw [find?_of_addTracked hstep, hnone, if_pos ⟨he, rfl⟩, Option.none_or]
  collected hstep k o hfound := by
    rw [find?_of_addTracked hstep, Option.or_eq_some_iff] at hfound
    refine hfound.imp id ?_
    rintro ⟨-, hadded⟩
    split at hadded
    next hlisted => exact ⟨hlisted.1, hlisted.2, Option.some.inj hadded⟩
    next => cases hadded
  kept hstep k o hfound := by
    rw [find?_of_addTracked hstep, hfound, Option.some_or]
  refused {tracked e err} := by
    by_cases he : e.remote ∈ configured
    · cases hfound : tracked.find? (trackedKey e) with
      | none =>
        rw [addTracked_of_find?_eq_none root he hfound]
        simp
      | some other =>
        rw [addTracked_of_find?_eq_some root he hfound]
        by_cases hsame : other = e.oid
        · simp [hsame]
        · simp [hsame, he, eq_comm]
    · rw [addTracked_of_not_mem root he]
      simp [he]

/-- Every listed local branch is collected. -/
theorem collects_addLocal (root : Path) (tracked : OrderedMap RemoteBranch Oid) :
    Collects root (addLocal root tracked) (fun m b => (m.find? b).map LocalEntry.oid)
      (fun _ => True) localKey LocalRef.oid LocalBranch.display where
  added {m e m'} hstep _ hnone := by
    rw [Option.map_eq_none_iff] at hnone
    rw [find?_of_addLocal hstep, hnone, if_pos rfl]
    rfl
  collected hstep k o hfound := by
    obtain ⟨value, hvalue, rfl⟩ := Option.map_eq_some_iff.1 hfound
    rw [find?_of_addLocal hstep, Option.or_eq_some_iff] at hvalue
    rcases hvalue with hbefore | ⟨-, hadded⟩
    · exact .inl (by rw [hbefore, Option.map_some])
    · split at hadded
      next hlisted => exact .inr ⟨trivial, hlisted, by rw [← Option.some.inj hadded]; rfl⟩
      next => cases hadded
  kept hstep k o hfound := by
    obtain ⟨value, hvalue, rfl⟩ := Option.map_eq_some_iff.1 hfound
    rw [find?_of_addLocal hstep, hvalue, Option.some_or, Option.map_some]
  refused {m e err} := by
    cases hfound : m.find? (localKey e) with
    | none =>
      rw [addLocal_of_find?_eq_none root tracked hfound]
      simp
    | some existing =>
      rw [addLocal_of_find?_eq_some root tracked hfound]
      by_cases hsame : existing.oid = e.oid
      · simp [hsame]
      · simp [hsame, eq_comm]

/-! ## Collections of a listing -/

variable {options : CatalogOptions} {root : Path} {listing : Listing}

/-- No branch is listed with two commits, remote-tracking branches of remotes that do not count left
aside. -/
structure Consistent (options : CatalogOptions) (listing : Listing) : Prop where
  /-- A remote-tracking branch of a configured remote that is left in has one commit. -/
  tracked : ∀ e ∈ listing.tracked, ∀ e' ∈ listing.tracked,
    e.remote ∈ listing.remotes.map Remote.name → isAllowed options e.remote = true →
      trackedKey e = trackedKey e' → e.oid = e'.oid
  /-- A local branch has one commit. -/
  locals : ∀ e ∈ listing.locals, ∀ e' ∈ listing.locals, localKey e = localKey e' → e.oid = e'.oid

/-- A branch that is shown as `name` is listed with the commits `a` and `b`. -/
def ListedAtBoth (options : CatalogOptions) (listing : Listing) (name : String) (a b : Oid) :
    Prop :=
  (∃ e ∈ listing.tracked, ∃ e' ∈ listing.tracked, e.remote ∈ configured options listing.remotes ∧
      trackedKey e = trackedKey e' ∧ (trackedKey e).display = name ∧ e.oid = a ∧ e'.oid = b) ∨
    ∃ e ∈ listing.locals, ∃ e' ∈ listing.locals, localKey e = localKey e' ∧
      (localKey e).display = name ∧ e.oid = a ∧ e'.oid = b

/-- The two folds of a collection. -/
theorem build_eq_ok_iff {c : BranchCollection} :
    build options root listing = .ok c ↔
      listing.tracked.foldlM (addTracked root (configured options listing.remotes)) .empty =
          .ok c.tracked ∧
        listing.locals.foldlM (addLocal root c.tracked) .empty = .ok c.locals := by
  obtain ⟨locals, tracked⟩ := c
  constructor
  · intro h
    obtain ⟨tracked, htracked, h⟩ := bind_eq_ok.1 h
    obtain ⟨locals, hlocals, h⟩ := bind_eq_ok.1 h
    obtain ⟨rfl, rfl⟩ := BranchCollection.mk.inj (Except.ok.inj h)
    exact ⟨htracked, hlocals⟩
  · rintro ⟨htracked, hlocals⟩
    exact bind_eq_ok.2 ⟨tracked, htracked, bind_eq_ok.2 ⟨locals, hlocals, rfl⟩⟩

/-- A collection is built exactly from a listing without conflicts. -/
theorem exists_build_iff :
    (∃ c, build options root listing = .ok c) ↔ Consistent options listing := by
  have htracked := (collects_addTracked root (configured options listing.remotes)).exists_foldlM_iff
    listing.tracked OrderedMap.find?_empty
  have hnone (b : LocalBranch) :
      ((OrderedMap.empty : OrderedMap LocalBranch LocalEntry).find? b).map LocalEntry.oid = none :=
    rfl
  have hlocals (tracked : OrderedMap RemoteBranch Oid) :=
    (collects_addLocal root tracked).exists_foldlM_iff listing.locals hnone
  constructor
  · rintro ⟨c, h⟩
    obtain ⟨hfold, hfold'⟩ := build_eq_ok_iff.1 h
    refine ⟨fun e he e' he' hremote hallowed hkey => ?_, fun e he e' he' hkey => ?_⟩
    · have hcounts : e.remote ∈ configured options listing.remotes :=
        mem_configured.2 ⟨hremote, hallowed⟩
      have hcounts' : e'.remote ∈ configured options listing.remotes := by
        rwa [← show e.remote = e'.remote from congrArg RemoteBranch.remote hkey]
      exact htracked.1 ⟨_, hfold⟩ e he e' he' hcounts hcounts' hkey
    · exact (hlocals _).1 ⟨_, hfold'⟩ e he e' he' trivial trivial hkey
  · rintro ⟨hsame, hsame'⟩
    obtain ⟨tracked, hfold⟩ := htracked.2 fun e he e' he' hcounts _ hkey =>
      hsame e he e' he' (mem_configured.1 hcounts).1 (mem_configured.1 hcounts).2 hkey
    obtain ⟨locals, hfold'⟩ := (hlocals tracked).2 fun e he e' he' _ _ hkey =>
      hsame' e he e' he' hkey
    exact ⟨⟨locals, tracked⟩, build_eq_ok_iff.2 ⟨hfold, hfold'⟩⟩

/-- A listing is refused for a branch that it names with two commits. -/
theorem conflict_of_build {err : TrackError} (h : build options root listing = .error err) :
    ∃ name a b, a ≠ b ∧ err = conflict root name a b ∧ ListedAtBoth options listing name a b := by
  rcases bind_eq_error.1 h with h | ⟨tracked, -, h⟩
  · obtain ⟨e, he, hcounts, other, hne, rfl, hother⟩ :=
      (collects_addTracked root (configured options listing.remotes)).refused_foldlM h
    rcases hother with hfound | ⟨e', he', hcounts', hkey, rfl⟩
    · cases hfound
    · exact ⟨_, _, _, hne, rfl, .inl ⟨e', he', e, he, hcounts', hkey, by rw [hkey], rfl, rfl⟩⟩
  rcases bind_eq_error.1 h with h | ⟨locals, -, h⟩
  · obtain ⟨e, he, -, other, hne, rfl, hother⟩ := (collects_addLocal root tracked).refused_foldlM h
    rcases hother with hfound | ⟨e', he', -, hkey, rfl⟩
    · cases hfound
    · exact ⟨_, _, _, hne, rfl, .inr ⟨e', he', e, he, hkey, by rw [hkey], rfl, rfl⟩⟩
  · cases h

/-- A collection that cannot be built is refused for the root. -/
theorem error_of_build {err : TrackError} (h : build options root listing = .error err) :
    ∃ problem, err = .unreadable root problem := by
  obtain ⟨name, a, b, -, rfl, -⟩ := conflict_of_build h
  exact ⟨_, rfl⟩

variable {c : BranchCollection}

/-- A remote-tracking branch has in the collection the commits that it is listed with, if its remote
is configured and left in. -/
theorem commit?_ofRemote_of_build (h : build options root listing = .ok c) (r : RemoteBranch)
    (oid : Oid) :
    c.commit? (.ofRemote r) = some oid ↔ ∃ e ∈ listing.tracked,
      e.remote ∈ listing.remotes.map Remote.name ∧ isAllowed options e.remote = true ∧
        trackedKey e = r ∧ e.oid = oid := by
  have hfold := (collects_addTracked root (configured options listing.remotes)).commit?_foldlM_iff
    (build_eq_ok_iff.1 h).1 (k := r) (o := oid)
  rw [BranchCollection.commit?, hfold]
  simp [mem_configured, and_assoc]

/-- A local branch has in the collection the commits that it is listed with. -/
theorem commit?_ofLocal_of_build (h : build options root listing = .ok c) {b : LocalBranch}
    {oid : Oid} :
    c.commit? (.ofLocal b) = some oid ↔ ∃ e ∈ listing.locals, localKey e = b ∧ e.oid = oid := by
  have hfold := (collects_addLocal root c.tracked).commit?_foldlM_iff (build_eq_ok_iff.1 h).2
    (k := b) (o := oid)
  rw [BranchCollection.commit?, hfold]
  simp

/-- The branch that an entry of a local branch is configured to track, if it is in the collection. -/
def linked? (c : BranchCollection) (e : LocalRef) : Option RemoteBranch :=
  (e.tracking.map fun u => ⟨u.remote, u.branch⟩).filter c.tracked.contains

/-- A local branch tracks in the collection what its first entry tracks, if that is there. -/
theorem tracking?_of_build (h : build options root listing = .ok c) (b : LocalBranch) :
    c.tracking? b = (listing.locals.find? fun e => localKey e = b).bind (linked? c) := by
  rw [BranchCollection.tracking?, find?_locals_of_build h]
  cases listing.locals.find? fun e => localKey e = b with
  | none => rfl
  | some e => rfl

/-- A collection is built exactly when no branch is listed with two commits, where remote-tracking
branches count that are of a configured remote which the options leave in. Otherwise the listing is
refused for the root, and the refusal names a branch with two commits that it is listed with. The
collection has the remote-tracking branches that count and the local branches of the listing, each
with the commit that it is listed with, and no others. A local branch tracks the branch that its
first entry tracks, when that one is in the collection, and else none. -/
theorem build_exact (options : CatalogOptions) (root : Path) (listing : Listing) :
    ((∃ c, build options root listing = .ok c) ↔ Consistent options listing) ∧
      (∀ err, build options root listing = .error err → ∃ name a b, a ≠ b ∧
        err = .unreadable root s!"branch '{name}' listed at both {a.short 7} and {b.short 7}" ∧
          ListedAtBoth options listing name a b) ∧
      ∀ c, build options root listing = .ok c →
        (∀ r oid, c.commit? (.ofRemote r) = some oid ↔ ∃ e ∈ listing.tracked,
          e.remote ∈ listing.remotes.map Remote.name ∧ isAllowed options e.remote = true ∧
            trackedKey e = r ∧ e.oid = oid) ∧
        (∀ b oid, c.commit? (.ofLocal b) = some oid ↔
          ∃ e ∈ listing.locals, localKey e = b ∧ e.oid = oid) ∧
        ∀ b, c.tracking? b =
          (listing.locals.find? fun e => localKey e = b).bind (linked? c) := by
  refine ⟨exists_build_iff, fun err h => conflict_of_build h, fun c h => ⟨?_, ?_, ?_⟩⟩
  · exact commit?_ofRemote_of_build h
  · exact fun b oid => commit?_ofLocal_of_build h
  · exact tracking?_of_build h

/-- A listing with a remote-tracking branch listed twice, one of a remote that is not configured, and
a local branch of which only the first entry tracks it. -/
def repeatedListing : Listing where
  locals := [⟨.master, .ofNumber 1, some ⟨"origin", .master⟩⟩, ⟨.master, .ofNumber 1, none⟩]
  tracked := [⟨"origin", .master, .ofNumber 2⟩, ⟨"gone", .master, .ofNumber 3⟩,
    ⟨"origin", .master, .ofNumber 2⟩, ⟨"gone", .master, .ofNumber 4⟩]
  remotes := [⟨"origin", []⟩]

/-- Entries that are repeated are one branch, and those of a remote that is not configured count for
nothing, whatever their commits are. -/
theorem build_repeatedListing :
    ∃ c, build .unrestricted ⟨"/r"⟩ repeatedListing = .ok c ∧
      c.commit? (.ofRemote ⟨"origin", .master⟩) = some (.ofNumber 2) ∧
      c.commit? (.ofRemote ⟨"gone", .master⟩) = none ∧
      c.commit? (.ofLocal ⟨.master⟩) = some (.ofNumber 1) ∧
      c.tracking? ⟨.master⟩ = some ⟨"origin", .master⟩ := by
  obtain ⟨hbuilt, -, hholds⟩ := build_exact .unrestricted ⟨"/r"⟩ repeatedListing
  obtain ⟨c, hc⟩ := hbuilt.2 ⟨by decide, by decide⟩
  obtain ⟨hremote, hlocal, htracking⟩ := hholds c hc
  have horigin : c.commit? (.ofRemote ⟨"origin", .master⟩) = some (.ofNumber 2) :=
    (hremote _ _).2 (by decide)
  refine ⟨c, hc, horigin, ?_, (hlocal _ _).2 (by decide), ?_⟩
  · refine Option.eq_none_iff_forall_ne_some.2 fun oid hoid => ?_
    obtain ⟨e, he, hconfigured, -, hkey, -⟩ := (hremote _ _).1 hoid
    rw [show e.remote = "gone" from congrArg RemoteBranch.remote hkey] at hconfigured
    exact absurd hconfigured (by decide)
  · have hcontains : c.tracked.contains ⟨"origin", .master⟩ = true := by
      rw [OrderedMap.contains, show c.tracked.find? _ = _ from horigin]
      rfl
    rw [htracking]
    simp [repeatedListing, localKey, linked?, Option.filter, hcontains]

end Catalog

end WorktreeTracker
