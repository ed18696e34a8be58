import WorktreeTracker.Catalog
import WorktreeTracker.Proofs.OrderedMap
import WorktreeTracker.Proofs.Results

/-!
# Collections of branches that are listed once

A listing that names every branch once has no conflict. The collection built from it holds the
listed branches of the remotes that count, each with its commit, and nothing else.
-/

namespace WorktreeTracker

namespace Catalog

/-- The branch that a listed remote-tracking branch is in a collection. -/
def trackedKey (entry : RemoteRef) : RemoteBranch := ⟨entry.remote, entry.name⟩

/-- The branch that a listed local branch is in a collection. -/
def localKey (entry : LocalRef) : LocalBranch := ⟨entry.name⟩

/-- A new remote-tracking branch of a remote that counts comes in with its commit. -/
theorem addTracked_of_find?_eq_none (root : Path) {configured : List String} {e : RemoteRef}
    {tracked : OrderedMap RemoteBranch Oid} (hremote : e.remote ∈ configured)
    (hnone : tracked.find? (trackedKey e) = none) :
    addTracked root configured tracked e = .ok (tracked.insert (trackedKey e) e.oid) := by
  have hcounts : configured.contains e.remote = true := List.contains_iff_mem.2 hremote
  unfold trackedKey at hnone
  simp only [addTracked, hcounts, Bool.not_true, Bool.false_eq_true, if_false, hnone, trackedKey]

/-- A remote-tracking branch that is there already has the same commit, or the listing is refused. -/
theorem addTracked_of_find?_eq_some (root : Path) {configured : List String} {e : RemoteRef}
    {tracked : OrderedMap RemoteBranch Oid} (hremote : e.remote ∈ configured) {oid : Oid}
    (hsome : tracked.find? (trackedKey e) = some oid) :
    addTracked root configured tracked e =
      if oid = e.oid then .ok tracked
      else .error (conflict root (trackedKey e).display oid e.oid) := by
  have hcounts : configured.contains e.remote = true := List.contains_iff_mem.2 hremote
  unfold trackedKey at hsome
  simp only [addTracked, hcounts, Bool.not_true, Bool.false_eq_true, if_false, hsome, trackedKey]

/-- A remote-tracking branch of a remote that does not count is passed over. -/
theorem addTracked_of_not_mem (root : Path) {configured : List String} {e : RemoteRef}
    {tracked : OrderedMap RemoteBranch Oid} (hremote : e.remote ∉ configured) :
    addTracked root configured tracked e = .ok tracked := by
  have hskip : configured.contains e.remote = false :=
    Bool.eq_false_iff.2 fun h => hremote (List.contains_iff_mem.1 h)
  simp only [addTracked, hskip, Bool.not_false, if_true]

/-- New remote-tracking branches of remotes that count come in with their commits. -/
theorem foldlM_addTracked (root : Path) {configured : List String} {entries : List RemoteRef}
    {tracked : OrderedMap RemoteBranch Oid} (hremote : ∀ e ∈ entries, e.remote ∈ configured)
    (hnodup : (entries.map trackedKey).Nodup)
    (hnew : ∀ e ∈ entries, tracked.find? (trackedKey e) = none) :
    ∃ result, entries.foldlM (addTracked root configured) tracked = .ok result ∧
      result.entries.Perm (entries.map (fun e => (trackedKey e, e.oid)) ++ tracked.entries) := by
  induction entries generalizing tracked with
  | nil => exact ⟨tracked, rfl, .refl _⟩
  | cons e rest ih =>
    obtain ⟨hfirst, hrest⟩ := List.nodup_cons.1 hnodup
    have hnone : tracked.find? (trackedKey e) = none := hnew e List.mem_cons_self
    have hadd : addTracked root configured tracked e = .ok (tracked.insert (trackedKey e) e.oid) :=
      addTracked_of_find?_eq_none root (hremote e List.mem_cons_self) hnone
    have hlater : ∀ other ∈ rest,
        (tracked.insert (trackedKey e) e.oid).find? (trackedKey other) = none := by
      intro other hother
      rw [OrderedMap.find?_insert_of_ne]
      · exact hnew other (List.mem_cons_of_mem _ hother)
      · exact fun heq => hfirst (heq ▸ List.mem_map_of_mem hother)
    -- the later entries go into the map that has the first one
    obtain ⟨result, hresult, hperm⟩ :=
      ih (fun other hother => hremote other (List.mem_cons_of_mem _ hother)) hrest hlater
    refine ⟨result, ?_, ?_⟩
    · rw [List.foldlM_cons, hadd]
      exact hresult
    · refine hperm.trans (((OrderedMap.insert_perm tracked e.oid hnone).append_left _).trans ?_)
      exact List.perm_middle

/-- What a collection holds about a listed local branch. -/
def localEntry (tracked : OrderedMap RemoteBranch Oid) (e : LocalRef) : LocalEntry :=
  ⟨e.oid, (e.tracking.map fun u => ⟨u.remote, u.branch⟩).filter tracked.contains⟩

/-- A new local branch comes in. -/
theorem addLocal_of_find?_eq_none (root : Path) (tracked : OrderedMap RemoteBranch Oid)
    {e : LocalRef} {locals : OrderedMap LocalBranch LocalEntry}
    (hnone : locals.find? (localKey e) = none) :
    addLocal root tracked locals e = .ok (locals.insert (localKey e) (localEntry tracked e)) := by
  unfold localKey at hnone
  simp only [addLocal, hnone, localKey, localEntry]

/-- A local branch that is there already has the same commit, or the listing is refused. -/
theorem addLocal_of_find?_eq_some (root : Path) (tracked : OrderedMap RemoteBranch Oid)
    {e : LocalRef} {locals : OrderedMap LocalBranch LocalEntry} {existing : LocalEntry}
    (hsome : locals.find? (localKey e) = some existing) :
    addLocal root tracked locals e =
      if existing.oid = e.oid then .ok locals
      else .error (conflict root (localKey e).display existing.oid e.oid) := by
  unfold localKey at hsome
  simp only [addLocal, hsome, localKey]

/-- New local branches come in with their commits. -/
theorem foldlM_addLocal (root : Path) (tracked : OrderedMap RemoteBranch Oid)
    {entries : List LocalRef} {locals : OrderedMap LocalBranch LocalEntry}
    (hnodup : (entries.map localKey).Nodup)
    (hnew : ∀ e ∈ entries, locals.find? (localKey e) = none) :
    ∃ result, entries.foldlM (addLocal root tracked) locals = .ok result ∧
      (result.entries.map fun e => (e.1, e.2.oid)).Perm
        (entries.map (fun e => (localKey e, e.oid)) ++
          locals.entries.map fun e => (e.1, e.2.oid)) := by
  induction entries generalizing locals with
  | nil => exact ⟨locals, rfl, .refl _⟩
  | cons e rest ih =>
    obtain ⟨hfirst, hrest⟩ := List.nodup_cons.1 hnodup
    have hnone : locals.find? (localKey e) = none := hnew e List.mem_cons_self
    have hlater : ∀ other ∈ rest,
        (locals.insert (localKey e) (localEntry tracked e)).find? (localKey other) = none := by
      intro other hother
      rw [OrderedMap.find?_insert_of_ne]
      · exact hnew other (List.mem_cons_of_mem _ hother)
      · exact fun heq => hfirst (heq ▸ List.mem_map_of_mem hother)
    obtain ⟨result, hresult, hperm⟩ := ih hrest hlater
    refine ⟨result, ?_, ?_⟩
    · rw [List.foldlM_cons, addLocal_of_find?_eq_none root tracked hnone]
      exact hresult
    · have hinsert := (OrderedMap.insert_perm locals (localEntry tracked e) hnone).map
        fun e => (e.1, e.2.oid)
      rw [List.map_cons] at hinsert
      exact hperm.trans ((hinsert.append_left _).trans List.perm_middle)

/-- A remote counts when it is configured and the settings leave it in. -/
theorem mem_configured {options : CatalogOptions} {remotes : List Remote} {name : String} :
    name ∈ configured options remotes ↔
      name ∈ remotes.map Remote.name ∧ isAllowed options name = true :=
  List.mem_filter

/-- Without settings that narrow them, the branches of every remote count. -/
theorem mem_configured_unrestricted {remotes : List Remote} {name : String} :
    name ∈ configured .unrestricted remotes ↔ name ∈ remotes.map Remote.name := by
  simp [configured, isAllowed, CatalogOptions.unrestricted]

/-- The local branches of a collection are those of the listing when it names each of them once. -/
theorem locals_of_build {options : CatalogOptions} {root : Path} {listing : Listing}
    {c : BranchCollection} (h : build options root listing = .ok c)
    (hlocals : (listing.locals.map localKey).Nodup) :
    (c.locals.entries.map fun e => (e.1, e.2.oid)).Perm
      (listing.locals.map fun e => (localKey e, e.oid)) := by
  obtain ⟨tracked, -, h⟩ := bind_eq_ok.1 h
  obtain ⟨locals, hfold, h⟩ := bind_eq_ok.1 h
  obtain rfl := Except.ok.inj h
  obtain ⟨result, hresult, hperm⟩ :=
    foldlM_addLocal root tracked hlocals fun _ _ => OrderedMap.find?_empty _
  obtain rfl := Except.ok.inj (hfold.symm.trans hresult)
  have hnil : (OrderedMap.empty : OrderedMap LocalBranch LocalEntry).entries = [] := rfl
  rwa [hnil, List.map_nil, List.append_nil] at hperm

/-- A listing that names every branch once, all of configured remotes, has no conflict, and its
collection holds the listed branches with their commits and nothing else. -/
theorem build_of_nodup (root : Path) (listing : Listing)
    (hremote : ∀ e ∈ listing.tracked, e.remote ∈ listing.remotes.map Remote.name)
    (htracked : (listing.tracked.map trackedKey).Nodup)
    (hlocals : (listing.locals.map localKey).Nodup) :
    ∃ c, build .unrestricted root listing = .ok c ∧
      (c.locals.entries.map fun e => (e.1, e.2.oid)).Perm
        (listing.locals.map fun e => (localKey e, e.oid)) ∧
      c.tracked.entries.Perm (listing.tracked.map fun e => (trackedKey e, e.oid)) := by
  obtain ⟨tracked, hfold, htrackedPerm⟩ := foldlM_addTracked root
    (fun e he => mem_configured_unrestricted.2 (hremote e he)) htracked
    fun _ _ => OrderedMap.find?_empty _
  obtain ⟨locals, hfold', -⟩ := foldlM_addLocal root tracked hlocals
    fun _ _ => OrderedMap.find?_empty _
  have hbuild : build .unrestricted root listing = .ok ⟨locals, tracked⟩ :=
    bind_eq_ok.2 ⟨tracked, hfold, bind_eq_ok.2 ⟨locals, hfold', rfl⟩⟩
  refine ⟨⟨locals, tracked⟩, hbuild, locals_of_build hbuild hlocals, ?_⟩
  have hnil : (OrderedMap.empty : OrderedMap RemoteBranch Oid).entries = [] := rfl
  rwa [hnil, List.append_nil] at htrackedPerm

/-! ## What a collection holds

A listing that names a branch with two commits is refused, so in what is built every entry of a
branch is as good as the first.
-/

/-- One listed remote-tracking branch comes in when its remote counts and it is new. -/
theorem find?_of_addTracked {root : Path} {configured : List String} {e : RemoteRef}
    {tracked after : OrderedMap RemoteBranch Oid}
    (h : addTracked root configured tracked e = .ok after) (r : RemoteBranch) :
    after.find? r = (tracked.find? r).or
      (if e.remote ∈ configured ∧ trackedKey e = r then some e.oid else none) := by
  by_cases hremote : e.remote ∈ configured
  · cases hfound : tracked.find? (trackedKey e) with
    | none =>
      rw [addTracked_of_find?_eq_none root hremote hfound] at h
      obtain rfl := Except.ok.inj h
      rw [OrderedMap.find?_insert]
      by_cases hkey : r = trackedKey e
      · rw [if_pos hkey, if_pos ⟨hremote, hkey.symm⟩, hkey, hfound, Option.none_or]
      · rw [if_neg hkey, if_neg fun h => hkey h.2.symm, Option.or_none]
    | some oid =>
      -- whatever the commit is, what was there stays
      rw [addTracked_of_find?_eq_some root hremote hfound] at h
      split at h
      next =>
        obtain rfl := Except.ok.inj h
        by_cases hkey : trackedKey e = r
        · rw [← hkey, hfound, Option.some_or]
        · rw [if_neg fun h => hkey h.2, Option.or_none]
      next => cases h
  · rw [addTracked_of_not_mem root hremote] at h
    obtain rfl := Except.ok.inj h
    rw [if_neg fun h => hremote h.1, Option.or_none]

/-- The remote-tracking branches are the listed ones of the remotes that count. -/
theorem find?_tracked_of_foldlM {root : Path} {configured : List String}
    {entries : List RemoteRef} {tracked after : OrderedMap RemoteBranch Oid}
    (h : entries.foldlM (addTracked root configured) tracked = .ok after) (r : RemoteBranch) :
    after.find? r = (tracked.find? r).or (if r.remote ∈ configured then
      (entries.find? fun e => trackedKey e = r).map RemoteRef.oid else none) := by
  induction entries generalizing tracked with
  | nil =>
    obtain rfl := Except.ok.inj h
    simp
  | cons e rest ih =>
    rw [List.foldlM_cons] at h
    obtain ⟨next, hnext, h⟩ := bind_eq_ok.1 h
    rw [ih h, find?_of_addTracked hnext, Option.or_assoc]
    congr 1
    by_cases hkey : trackedKey e = r
    · have hremote : e.remote = r.remote := congrArg RemoteBranch.remote hkey
      rw [List.find?_cons_of_pos (by simpa using hkey), hremote]
      by_cases hcounts : r.remote ∈ configured <;> simp [hcounts, hkey]
    · rw [List.find?_cons_of_neg (by simpa using hkey), if_neg fun h => hkey h.2, Option.none_or]

/-- One listed local branch comes in when it is new. -/
theorem find?_of_addLocal {root : Path} {tracked : OrderedMap RemoteBranch Oid} {e : LocalRef}
    {locals after : OrderedMap LocalBranch LocalEntry}
    (h : addLocal root tracked locals e = .ok after) (b : LocalBranch) :
    after.find? b = (locals.find? b).or
      (if localKey e = b then some (localEntry tracked e) else none) := by
  cases hfound : locals.find? (localKey e) with
  | none =>
    rw [addLocal_of_find?_eq_none root tracked hfound] at h
    obtain rfl := Except.ok.inj h
    rw [OrderedMap.find?_insert]
    by_cases hkey : b = localKey e
    · rw [if_pos hkey, if_pos hkey.symm, hkey, hfound, Option.none_or]
    · rw [if_neg hkey, if_neg (Ne.symm hkey), Option.or_none]
  | some existing =>
    rw [addLocal_of_find?_eq_some root tracked hfound] at h
    split at h
    next =>
      obtain rfl := Except.ok.inj h
      by_cases hkey : localKey e = b
      · rw [← hkey, hfound, Option.some_or]
      · rw [if_neg hkey, Option.or_none]
    next => cases h

/-- The local branches are the listed ones. -/
theorem find?_locals_of_foldlM {root : Path} {tracked : OrderedMap RemoteBranch Oid}
    {entries : List LocalRef} {locals after : OrderedMap LocalBranch LocalEntry}
    (h : entries.foldlM (addLocal root tracked) locals = .ok after) (b : LocalBranch) :
    after.find? b = (locals.find? b).or
      ((entries.find? fun e => localKey e = b).map (localEntry tracked)) := by
  induction entries generalizing locals with
  | nil =>
    obtain rfl := Except.ok.inj h
    simp
  | cons e rest ih =>
    rw [List.foldlM_cons] at h
    obtain ⟨next, hnext, h⟩ := bind_eq_ok.1 h
    rw [ih h, find?_of_addLocal hnext, Option.or_assoc]
    congr 1
    by_cases hkey : localKey e = b
    · rw [List.find?_cons_of_pos (by simpa using hkey), if_pos hkey, Option.some_or,
        Option.map_some]
    · rw [List.find?_cons_of_neg (by simpa using hkey), if_neg hkey, Option.none_or]

variable {options : CatalogOptions} {root : Path} {listing : Listing} {c : BranchCollection}

/-- A remote-tracking branch has in the collection the commit that it is listed with, if its remote
counts. -/
theorem find?_tracked_of_build (h : build options root listing = .ok c) (r : RemoteBranch) :
    c.tracked.find? r = if r.remote ∈ configured options listing.remotes then
      (listing.tracked.find? fun e => trackedKey e = r).map RemoteRef.oid else none := by
  obtain ⟨tracked, htracked, h⟩ := bind_eq_ok.1 h
  obtain ⟨locals, -, h⟩ := bind_eq_ok.1 h
  obtain rfl := Except.ok.inj h
  rw [find?_tracked_of_foldlM htracked, OrderedMap.find?_empty, Option.none_or]

/-- A local branch has in the collection the commit that it is listed with. It tracks what it is
listed to track, if that is in the collection. -/
theorem find?_locals_of_build (h : build options root listing = .ok c) (b : LocalBranch) :
    c.locals.find? b =
      (listing.locals.find? fun e => localKey e = b).map (localEntry c.tracked) := by
  obtain ⟨tracked, -, h⟩ := bind_eq_ok.1 h
  obtain ⟨locals, hlocals, h⟩ := bind_eq_ok.1 h
  obtain rfl := Except.ok.inj h
  rw [find?_locals_of_foldlM hlocals, OrderedMap.find?_empty, Option.none_or]

/-- Two collections of one listing are the same exactly when both leave in the same remotes of those
that a branch is listed for. -/
theorem build_eq_iff {options' : CatalogOptions} {root' : Path} {c' : BranchCollection}
    (h : build options root listing = .ok c) (h' : build options' root' listing = .ok c') :
    c = c' ↔ ∀ e ∈ listing.tracked, e.remote ∈ listing.remotes.map Remote.name →
      isAllowed options e.remote = isAllowed options' e.remote := by
  constructor
  · rintro rfl e he hremote
    have hlisted : (listing.tracked.find? fun other => trackedKey other = trackedKey e) ≠ none := by
      rw [Ne, List.find?_eq_none]
      exact fun hnone => hnone e he (by simp)
    -- whether the branch is in the collection tells whether its remote is left in
    have hcounts {options : CatalogOptions} {root : Path}
        (h : build options root listing = .ok c) :
        c.tracked.find? (trackedKey e) ≠ none ↔ isAllowed options e.remote = true := by
      rw [find?_tracked_of_build h]
      split
      next hin =>
        rw [Ne, Option.map_eq_none_iff]
        exact iff_of_true hlisted (mem_configured.1 hin).2
      next hout =>
        rw [Ne, eq_self, not_true, false_iff]
        exact fun hallowed => hout (mem_configured.2 ⟨hremote, hallowed⟩)
    rw [Bool.eq_iff_iff]
    exact (hcounts h).symm.trans (hcounts h')
  · intro hallowed
    have htracked : c.tracked = c'.tracked := by
      refine OrderedMap.ext_find? fun r => ?_
      rw [find?_tracked_of_build h, find?_tracked_of_build h']
      cases hfound : listing.tracked.find? fun e => trackedKey e = r with
      | none => simp
      | some e =>
        -- the branch is listed, so its remote is left in by both or by none
        have hfoundKey := List.find?_some hfound
        have hkey : trackedKey e = r := of_decide_eq_true hfoundKey
        have hsame := hallowed e (List.mem_of_find?_eq_some hfound)
        have hiff : r.remote ∈ configured options listing.remotes ↔
            r.remote ∈ configured options' listing.remotes := by
          rw [mem_configured, mem_configured, ← hkey]
          exact and_congr_right fun hremote => by rw [trackedKey, hsame hremote]
        simp only [hiff]
    have hlocals : c.locals = c'.locals := by
      refine OrderedMap.ext_find? fun b => ?_
      rw [find?_locals_of_build h, find?_locals_of_build h', htracked]
    obtain ⟨locals, tracked⟩ := c
    obtain ⟨locals', tracked'⟩ := c'
    obtain rfl : tracked = tracked' := htracked
    obtain rfl : locals = locals' := hlocals
    rfl

end Catalog

namespace BranchCollection

variable {c : BranchCollection}

/-- A local branch with its commit is an entry of the collection. -/
theorem mem_commits_iff {b : LocalBranch} {oid : Oid} :
    (b, oid) ∈ c.locals.entries.map (fun e => (e.1, e.2.oid)) ↔
      (c.locals.find? b).map LocalEntry.oid = some oid := by
  rw [List.mem_map, Option.map_eq_some_iff]
  constructor
  · rintro ⟨⟨found, e⟩, he, heq⟩
    obtain ⟨rfl, rfl⟩ := Prod.mk.inj heq
    exact ⟨e, OrderedMap.find?_eq_some_iff.2 he, rfl⟩
  · rintro ⟨e, he, rfl⟩
    exact ⟨_, OrderedMap.find?_eq_some_iff.1 he, rfl⟩

/-- The commit shown for a name is that of the local branch of the name. -/
theorem localCommit?_eq_some_iff_exists {name : String} {oid : Oid} :
    c.localCommit? name = some oid ↔
      ∃ b : BranchName, b.text = name ∧ (c.locals.find? ⟨b⟩).map LocalEntry.oid = some oid := by
  rw [localCommit?, Option.bind_eq_some_iff]
  constructor
  · rintro ⟨found, hfound, hcommit⟩
    have hdisplay := List.find?_some hfound
    exact ⟨found.name, of_decide_eq_true hdisplay, hcommit⟩
  · rintro ⟨b, rfl, hcommit⟩
    have hnamed : ∀ found : LocalBranch, found.display = b.text → found = ⟨b⟩ := by
      rintro ⟨⟨text, valid⟩⟩ hdisplay
      obtain ⟨name, hname⟩ := b
      obtain rfl : text = name := hdisplay
      rfl
    obtain ⟨e, he, -⟩ := Option.map_eq_some_iff.1 hcommit
    have hmem : (⟨b⟩ : LocalBranch) ∈ c.locals.keys :=
      List.mem_map.2 ⟨_, OrderedMap.find?_eq_some_iff.1 he, rfl⟩
    have hsome : (c.findLocal? b.text).isSome :=
      List.find?_isSome.2 ⟨⟨b⟩, hmem, by simp [LocalBranch.display]⟩
    obtain ⟨found, hfound⟩ := Option.isSome_iff_exists.1 hsome
    have hdisplay := List.find?_some hfound
    refine ⟨found, hfound, ?_⟩
    rwa [hnamed found (of_decide_eq_true hdisplay)]

/-- The commit of a local branch is looked up under its name. -/
theorem localCommit?_eq_some_iff {b : BranchName} {oid : Oid} :
    c.localCommit? b.text = some oid ↔
      (⟨b⟩, oid) ∈ c.locals.entries.map fun e => (e.1, e.2.oid) := by
  rw [mem_commits_iff, localCommit?_eq_some_iff_exists]
  constructor
  · rintro ⟨⟨text, valid⟩, htext, hcommit⟩
    obtain ⟨name, hname⟩ := b
    obtain rfl : text = name := htext
    exact hcommit
  · exact fun hcommit => ⟨b, rfl, hcommit⟩

end BranchCollection

end WorktreeTracker
