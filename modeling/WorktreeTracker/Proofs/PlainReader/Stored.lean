import WorktreeTracker.Proofs.PlainReader.Exactness
import WorktreeTracker.Repository.Library

/-!
# What is stored and what is listed

A reference is stored in the file of its name, or else on its packed line. That is said here without
the plain reader's walk through the directories, so that other readers can be held against it. The
branches in a listing of the plain reader are told by what it lists for their references and by what
the configuration names.
-/

namespace WorktreeTracker

theorem BranchKind.lead_eq (kind : BranchKind) :
    kind.lead = RefName.heads ∨ kind.lead = RefName.remotes := by
  cases kind with
  | own => exact .inl rfl
  | tracked => exact .inr rfl

/-! ## Stored references -/

/-- What is stored under a name: an id, or none for a symbolic reference. The file of the name says
it, or there is no such file and the last packed line of the name has it. -/
inductive Stored (t : FileTree) (l : Layout) (name : String) : Option Oid → Prop where
  /-- The file of the name has an id. -/
  | direct {text : String} {oid : Oid} (file : t.readText (l.looseRef name) = .ok text)
    (said : RefFile.SaysId text oid) : Stored t l name (some oid)
  /-- The file of the name has the name of another reference. -/
  | symbolic {text target : String} (file : t.readText (l.looseRef name) = .ok text)
    (said : RefFile.SaysRef text target) : Stored t l name none
  /-- There is no file of the name, and the last packed line of the name has an id. -/
  | packed {packed : List (String × Oid)} {oid : Oid}
    (absent : ∀ contents, t.readFile (l.looseRef name) ≠ .ok contents)
    (refs : PlainReader.packedRefs t l = .ok packed)
    (last : (packed.filter fun e => e.1 = name).getLast? = some (name, oid)) :
    Stored t l name (some oid)

/-- A reference is stored: its name is acceptable, and something is stored under it. -/
structure IsRef (t : FileTree) (l : Layout) (name : String) (found : Option Oid) : Prop where
  /-- The name keeps the rules. -/
  acceptable : NameProblem.Keeps name
  /-- What is stored under the name. -/
  stored : Stored t l name found

section

variable {t : FileTree} {l : Layout} {name : String} {found found' : Option Oid}

/-- What the file of a name says is what it is read as. -/
theorem Stored.of_file {text : String} {value : RefValue}
    (hfile : t.readText (l.looseRef name) = .ok text)
    (hvalue : RefFile.parse (l.looseRef name) text = .ok value) : Stored t l name value.oid? := by
  cases value with
  | direct oid => exact .direct hfile (RefFile.parse_eq_direct_iff.1 hvalue)
  | symbolic target => exact .symbolic hfile (RefFile.saysRef_of_parse hvalue)

/-- A file that is there says what is stored. -/
theorem Stored.exists_value (h : Stored t l name found) {text : String}
    (hfile : t.readText (l.looseRef name) = .ok text) :
    ∃ value, RefFile.parse (l.looseRef name) text = .ok value ∧ value.oid? = found := by
  cases h with
  | direct hother hsaid =>
    obtain rfl := Except.ok.inj (hfile.symm.trans hother)
    exact ⟨_, RefFile.parse_of_saysId hsaid _, rfl⟩
  | symbolic hother hsaid =>
    obtain rfl := Except.ok.inj (hfile.symm.trans hother)
    exact ⟨_, RefFile.parse_of_saysRef hsaid _, rfl⟩
  | packed habsent =>
    obtain ⟨contents, hcontents, -⟩ := bind_eq_ok.1 hfile
    exact absurd hcontents (habsent contents)

/-- One thing is stored under a name. -/
theorem Stored.unique (h : Stored t l name found) (h' : Stored t l name found') :
    found = found' := by
  have hfile {text : String} (hread : t.readText (l.looseRef name) = .ok text) : found = found' := by
    obtain ⟨value, hvalue, rfl⟩ := h.exists_value hread
    obtain ⟨value', hvalue', rfl⟩ := h'.exists_value hread
    rw [Except.ok.inj (hvalue.symm.trans hvalue')]
  cases h with
  | direct hread => exact hfile hread
  | symbolic hread => exact hfile hread
  | packed _ hrefs hlast =>
    cases h' with
    | direct hread => exact hfile hread
    | symbolic hread => exact hfile hread
    | packed _ hrefs' hlast' =>
      obtain rfl := Except.ok.inj (hrefs.symm.trans hrefs')
      exact congrArg (Option.map Prod.snd) (hlast.symm.trans hlast')

end

/-- What a git library is taken to answer about the references on disk. That it gives a remote one
address at most needs no assumption: its answer has no room for another one. -/
structure GitLibrary.Reads (g : GitLibrary) (t : FileTree) (l : Layout) : Prop where
  /-- The branches of a kind are the references on disk whose names start like theirs, symbolic ones
  too. -/
  iterator : ∀ kind entries, g.branches kind = .ok entries → ∀ rest found,
    (∃ target, .ok ⟨some (kind.lead ++ rest), target⟩ ∈ entries ∧ target.oid? = found) ↔
      IsRef t l (kind.lead ++ rest) found
  /-- A branch without an id has the name of a reference, and that is text. -/
  symbolic : ∀ kind entries, g.branches kind = .ok entries → ∀ found, .ok found ∈ entries →
    found.target.oid? = none → found.target.symbolic?.isSome
  /-- A branch with an id that leads to a commit leads to the one of that id. -/
  peels : ∀ kind entries, g.branches kind = .ok entries → ∀ found, .ok found ∈ entries →
    ∀ oid commit, found.target.oid? = some oid → g.peel found.target = .ok commit → commit = oid

namespace PlainReader

variable {t : FileTree} {l : Layout}

/-! ## Listed references -/

variable (t l) in
/-- The plain reader lists an id for a reference of a kind of branches. -/
def Lists (kind : BranchKind) (name : RefName) (oid : Oid) : Prop :=
  ∃ refs, listRefs t l kind.lead = .ok refs ∧ (name, oid) ∈ refs

variable (t l) in
/-- The plain reader lists what is stored: for the name of every branch the id that is stored under
it, and nothing for a symbolic reference. -/
def ListsStored : Prop :=
  ∀ (kind : BranchKind) (rest : String) (oid : Oid),
    Lists t l kind ⟨kind.lead ++ rest⟩ oid ↔ IsRef t l (kind.lead ++ rest) (some oid)

/-- A listing has the branches that the configuration is read for. -/
theorem listing_eq_ok {listing : Listing} (h : PlainReader.listing t l = .ok listing) :
    ∃ settings, config t l = .ok settings ∧
      localBranchesOf t l (tracking l settings) = .ok listing.locals ∧
      trackedBranchesOf t l listing.remotes = .ok listing.tracked ∧
      listing.remotes = remotesOf settings := by
  obtain ⟨settings, hsettings, h⟩ := bind_eq_ok.1 h
  obtain ⟨locals, hlocals, h⟩ := bind_eq_ok.1 h
  obtain ⟨tracked, htracked, h⟩ := bind_eq_ok.1 h
  obtain rfl := Except.ok.inj h
  exact ⟨settings, hsettings, hlocals, htracked, rfl⟩

/-- A kind of branches that is in a listing is listed. -/
theorem exists_listRefs {listing : Listing} (h : PlainReader.listing t l = .ok listing)
    (kind : BranchKind) : ∃ refs, listRefs t l kind.lead = .ok refs := by
  obtain ⟨settings, -, hlocals, htracked, -⟩ := listing_eq_ok h
  cases kind with
  | own => exact ⟨_, localBranchesOf_eq_ok hlocals⟩
  | tracked =>
    obtain ⟨refs, hrefs, -⟩ := trackedBranchesOf_eq_ok htracked
    exact ⟨refs, hrefs⟩

/-- What is found last for a name that no other file takes is what is stored under it, when its file
is the one that is read at its path. -/
theorem Unaliased.lastSays_iff_stored {dir lead rest : String} {packed : List (String × Oid)}
    (hname : Unaliased t l lead rest) (h : Leads dir lead) (hrest : NameProblem.Keeps rest)
    (hfile : ∀ contents, IsFile t l lead rest contents ↔
      t.readFile (l.looseRef (lead ++ rest)) = .ok contents)
    (hpacked : packedRefs t l = .ok packed) {oid : Oid} :
    LastSays t l lead packed (lead ++ rest) oid ↔ Stored t l (lead ++ rest) (some oid) := by
  have hlisted {file : Path × ByteArray} (hmem : file ∈ filesListedAs t l lead (lead ++ rest)) :
      t.readFile (l.looseRef (lead ++ rest)) = .ok file.2 :=
    (hfile _).1 (hname.isFile_of_mem h hmem)
  constructor
  · rintro (⟨file, text, hlast, htext, hsaid⟩ | ⟨hnil, hlast⟩)
    · exact .direct (bind_eq_ok.2 ⟨_, hlisted (List.mem_of_getLast? hlast), htext⟩) hsaid
    · refine .packed (fun contents hread => ?_) hpacked hlast
      have hmem := h.mem_filesListedAs_of_isFile hrest ((hfile contents).2 hread)
      rw [hnil] at hmem
      cases hmem
  · intro hstored
    cases hstored with
    | direct htext hsaid =>
      obtain ⟨contents, hread, hdecode⟩ := bind_eq_ok.1 htext
      have hmem := h.mem_filesListedAs_of_isFile hrest ((hfile contents).2 hread)
      obtain ⟨last, hlast⟩ := Option.isSome_iff_exists.1
        (List.getLast?_isSome.2 (List.ne_nil_of_mem hmem))
      have hcontents := Except.ok.inj (hread.symm.trans (hlisted (List.mem_of_getLast? hlast)))
      exact .inl ⟨last, _, hlast, hcontents ▸ hdecode, hsaid⟩
    | packed habsent hrefs hlast =>
      obtain rfl := Except.ok.inj (hpacked.symm.trans hrefs)
      refine .inr ⟨List.eq_nil_iff_forall_not_mem.2 fun file hmem => ?_, hlast⟩
      exact habsent _ (hlisted hmem)

/-- A remote is the longest of those that a reference fits. -/
structure Longest (remotes : List Remote) (name : RefName) (remote : String) : Prop where
  /-- The remote is one of them. -/
  mem : remote ∈ remotes.map Remote.name
  /-- No other one that fits is longer. -/
  longest : ∀ other ∈ remotes.map Remote.name, fits name other = true →
    other.utf8ByteSize ≤ remote.utf8ByteSize

/-! ## Members of a listing -/

/-- A listed local branch tracks what it is looked up to track. -/
theorem upstream_of_localBranch {upstream : Upstream} {name : RefName} {oid : Oid} {e : LocalRef}
    (h : localBranch upstream name oid = .ok (some e)) : upstream e.name = .ok e.tracking := by
  unfold localBranch at h
  split at h
  next => cases h
  next =>
    obtain ⟨tracking, htracking, heq⟩ := map_eq_ok.1 h
    obtain rfl := Option.some.inj heq
    exact htracking

/-- A local branch of a listing tracks what it is looked up to track. -/
theorem upstream_of_mem {upstream : Upstream} {locals : List LocalRef}
    (h : localBranchesOf t l upstream = .ok locals) {e : LocalRef} (he : e ∈ locals) :
    upstream e.name = .ok e.tracking := by
  obtain ⟨refs, -, h⟩ := bind_eq_ok.1 h
  obtain ⟨branches, hbranches, h⟩ := bind_eq_ok.1 h
  obtain rfl := Except.ok.inj h
  obtain ⟨⟨name, oid⟩, -, hbranch⟩ := (mem_filterMap_of_mapM hbranches).1 he
  exact upstream_of_localBranch hbranch

/-- A reference of a local branch is listed when the branch is in the listing. -/
theorem lists_ofBranch_iff {upstream : Upstream} {locals : List LocalRef}
    (h : localBranchesOf t l upstream = .ok locals) {b : BranchName} {oid : Oid} :
    Lists t l .own (.ofBranch b) oid ↔ ∃ e ∈ locals, e.name = b ∧ e.oid = oid := by
  have hrefs := localBranchesOf_eq_ok h
  constructor
  · rintro ⟨refs, hothers, hmem⟩
    obtain rfl := Except.ok.inj (hrefs.symm.trans hothers)
    obtain ⟨e, he, heq⟩ := List.mem_map.1 hmem
    obtain ⟨hname, hoid⟩ := Prod.mk.inj heq
    exact ⟨e, he, RefName.ofBranch_inj hname, hoid⟩
  · rintro ⟨e, he, rfl, rfl⟩
    exact ⟨_, hrefs, List.mem_map_of_mem he⟩

/-- Of the remotes that a reference fits, one is of each length. -/
theorem eq_of_fits {name : RefName} {remote other : String} (h : fits name remote = true)
    (hother : fits name other = true) (hsize : remote.utf8ByteSize = other.utf8ByteSize) :
    remote = other := by
  rw [fits, Text.startsWith_iff] at h hother
  have hlead {s : String} : (RefName.remotes ++ s ++ "/").toList =
      RefName.remotes.toList ++ (s.toList ++ ['/']) := by
    simp
  rw [hlead] at h hother
  obtain ⟨rest, hrest⟩ := h
  obtain ⟨rest', hrest'⟩ := hother
  rw [← hrest'] at hrest
  simp only [List.append_assoc, List.append_cancel_left_eq] at hrest
  -- one of the two is a prefix of the other, and both have as many bytes
  have hshorter {s s' : String} (hp : s.toList <+: s'.toList)
      (hsize : s.utf8ByteSize = s'.utf8ByteSize) : s = s' := by
    obtain ⟨more, hmore⟩ := hp
    have htext : s' = s ++ String.ofList more := by
      rw [← String.toList_inj, String.toList_append, String.toList_ofList, hmore]
    rw [htext, String.utf8ByteSize_append] at hsize
    have hnil : String.ofList more = "" := String.utf8ByteSize_eq_zero_iff.1 (by omega)
    rw [htext, hnil, String.append_empty]
  have hremote : remote.toList <+: other.toList ++ (['/'] ++ rest') :=
    hrest ▸ List.prefix_append _ _
  rcases List.prefix_or_prefix_of_prefix hremote (List.prefix_append _ _) with hp | hp
  · exact hshorter hp hsize
  · exact (hshorter hp hsize.symm).symm

theorem fits_ofRemoteBranch (remote : String) (b : BranchName) :
    fits (.ofRemoteBranch remote b) remote = true := by
  have hname : (RefName.ofRemoteBranch remote b).text =
      RefName.remotes ++ (remote ++ "/" ++ b.text) := by
    simp [RefName.ofRemoteBranch, String.append_assoc]
  exact (fits_iff hname).2 ⟨_, rfl⟩

/-- A listed reference that a remote fits is in the listing, as a branch of some remote. -/
theorem exists_trackedRef {remotes : List Remote} {tracked : List RemoteRef}
    (h : trackedBranchesOf t l remotes = .ok tracked) {e : RemoteRef}
    (hlisted : Lists t l .tracked (.ofRemoteBranch e.remote e.name) e.oid)
    (hremote : e.remote ∈ remotes.map Remote.name) :
    ∃ other ∈ tracked, trackedRef other = trackedRef e := by
  obtain ⟨refs, hrefs, hmap, -⟩ := trackedBranchesOf_eq_ok h
  obtain ⟨others, hothers, hmem⟩ := hlisted
  obtain rfl := Except.ok.inj (hrefs.symm.trans hothers)
  exact List.mem_map.1 (hmap ▸ List.mem_filter.2
    ⟨hmem, List.any_eq_true.2 ⟨_, hremote, fits_ofRemoteBranch _ _⟩⟩)

/-- Branches of one remote with one reference are the same. -/
theorem eq_of_trackedRef {e other : RemoteRef} (h : trackedRef other = trackedRef e)
    (hremote : other.remote = e.remote) : other = e := by
  obtain ⟨remote, branch, oid⟩ := e
  obtain ⟨remote', branch', oid'⟩ := other
  obtain rfl : remote' = remote := hremote
  obtain ⟨hname, hoid⟩ := Prod.mk.inj h
  obtain rfl : branch' = branch := RefName.ofRemoteBranch_inj hname
  obtain rfl : oid' = oid := hoid
  rfl

/-- A remote-tracking branch is in the listing when its reference is listed with its commit and its
remote is the longest of those that the reference fits. -/
theorem mem_trackedBranchesOf_iff {remotes : List Remote} {tracked : List RemoteRef}
    (h : trackedBranchesOf t l remotes = .ok tracked) {e : RemoteRef} :
    e ∈ tracked ↔ Lists t l .tracked (.ofRemoteBranch e.remote e.name) e.oid ∧
      Longest remotes (.ofRemoteBranch e.remote e.name) e.remote := by
  obtain ⟨refs, hrefs, hmap, hlongest⟩ := trackedBranchesOf_eq_ok h
  constructor
  · intro he
    obtain ⟨hmem, hothers⟩ := hlongest e he
    exact ⟨⟨refs, hrefs, (List.mem_filter.1 (hmap ▸ List.mem_map_of_mem he)).1⟩, hmem, hothers⟩
  · rintro ⟨hlisted, hlong⟩
    obtain ⟨other, hother, heq⟩ := exists_trackedRef h hlisted hlong.mem
    have hname : RefName.ofRemoteBranch other.remote other.name = .ofRemoteBranch e.remote e.name :=
      (Prod.mk.inj heq).1
    -- both remotes are the longest that fit, so they are the same
    have hfits : fits (.ofRemoteBranch e.remote e.name) other.remote = true :=
      hname ▸ fits_ofRemoteBranch _ _
    obtain ⟨hotherMem, hotherLong⟩ := hlongest other hother
    have hsize : other.remote.utf8ByteSize = e.remote.utf8ByteSize := by
      refine Nat.le_antisymm (hlong.longest _ hotherMem hfits) (hotherLong _ hlong.mem ?_)
      rw [heq]
      exact fits_ofRemoteBranch _ _
    exact eq_of_trackedRef heq (eq_of_fits hfits (fits_ofRemoteBranch _ _) hsize) ▸ hother

end PlainReader

end WorktreeTracker
