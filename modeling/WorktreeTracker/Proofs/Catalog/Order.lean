import WorktreeTracker.Proofs.Catalog.Conflict
import WorktreeTracker.Proofs.Snapshot

/-!
# The order of a listing

A listing is a set of branches, written in some order. Whether a collection is built from it and
which commits the branches have does not depend on the order. What a local branch tracks does, when
the branch is listed more than once: it is what the first of its entries tracks.
-/

namespace WorktreeTracker

/-- Two listings have the same entries, each as often, in any order. -/
structure Listing.Permuted (a b : Listing) : Prop where
  /-- The local branches are the same. -/
  locals : a.locals.Perm b.locals
  /-- The remote-tracking branches are the same. -/
  tracked : a.tracked.Perm b.tracked
  /-- The remotes are the same. -/
  remotes : a.remotes.Perm b.remotes

theorem Listing.Permuted.symm {a b : Listing} (h : a.Permuted b) : b.Permuted a :=
  ⟨h.locals.symm, h.tracked.symm, h.remotes.symm⟩

namespace Catalog

variable {options : CatalogOptions} {root : Path} {a b : Listing} {c c' : BranchCollection}

/-! ## What no order changes -/

/-- A listing without conflicts has none in any other order. -/
theorem Consistent.permuted (hconsistent : Consistent options a) (h : a.Permuted b) :
    Consistent options b where
  tracked e he e' he' hremote :=
    hconsistent.tracked e (h.tracked.mem_iff.2 he) e' (h.tracked.mem_iff.2 he')
      ((h.remotes.map Remote.name).mem_iff.2 hremote)
  locals e he e' he' :=
    hconsistent.locals e (h.locals.mem_iff.2 he) e' (h.locals.mem_iff.2 he')

/-- In any order a collection is built, or in none. -/
theorem exists_build_of_permuted (h : a.Permuted b) :
    (∃ c, build options root a = .ok c) ↔ ∃ c, build options root b = .ok c := by
  rw [exists_build_iff, exists_build_iff]
  exact ⟨(·.permuted h), (·.permuted h.symm)⟩

/-- In any order the remote-tracking branches are the same. -/
theorem tracked_of_permuted (h : a.Permuted b) (ha : build options root a = .ok c)
    (hb : build options root b = .ok c') : c.tracked = c'.tracked := by
  refine OrderedMap.ext_find? fun r => Option.ext fun oid => ?_
  have hleft := commit?_ofRemote_of_build ha r oid
  have hright := commit?_ofRemote_of_build hb r oid
  simp only [h.tracked.mem_iff, (h.remotes.map Remote.name).mem_iff] at hleft
  exact hleft.trans hright.symm

/-- In any order the local branches have the same commits. -/
theorem commit?_of_permuted (h : a.Permuted b) (ha : build options root a = .ok c)
    (hb : build options root b = .ok c') (branch : Branch) :
    c.commit? branch = c'.commit? branch := by
  cases branch with
  | ofLocal branch =>
    refine Option.ext fun oid => ?_
    rw [commit?_ofLocal_of_build ha, commit?_ofLocal_of_build hb]
    simp only [h.locals.mem_iff]
  | ofRemote branch =>
    rw [BranchCollection.commit?, tracked_of_permuted h ha hb]
    rfl

/-- Collections with the same branches and commits are the same when the local branches track the
same. -/
theorem eq_of_tracking? (htracked : c.tracked = c'.tracked)
    (hcommit : ∀ branch, c.commit? (.ofLocal branch) = c'.commit? (.ofLocal branch))
    (htracking : ∀ branch, c.tracking? branch = c'.tracking? branch) : c = c' := by
  obtain ⟨locals, tracked⟩ := c
  obtain ⟨locals', tracked'⟩ := c'
  obtain rfl : tracked = tracked' := htracked
  have hlocals : locals = locals' := by
    refine OrderedMap.ext_find? fun branch => ?_
    have hoid := hcommit branch
    have hupstream := htracking branch
    dsimp only [BranchCollection.commit?, BranchCollection.tracking?] at hoid hupstream
    cases hleft : locals.find? branch with
    | none =>
      rw [hleft, Option.map_none, eq_comm, Option.map_eq_none_iff] at hoid
      exact hoid.symm
    | some e =>
      rw [hleft, Option.map_some] at hoid
      obtain ⟨e', hright, heq⟩ := Option.map_eq_some_iff.1 hoid.symm
      rw [hleft, hright, Option.bind_some, Option.bind_some] at hupstream
      obtain ⟨oid, tracking⟩ := e
      obtain ⟨oid', tracking'⟩ := e'
      obtain rfl : oid' = oid := heq
      obtain rfl : tracking = tracking' := hupstream
      exact hright.symm
  rw [hlocals]

/-! ## What the first entry decides -/

/-- All entries of a local branch link it to the same branch of a collection. -/
def LinkedOnce (c : BranchCollection) (listing : Listing) : Prop :=
  ∀ e ∈ listing.locals, ∀ e' ∈ listing.locals, localKey e = localKey e' → linked? c e = linked? c e'

/-- When all entries of a branch link it to the same, it tracks that in any order. -/
theorem tracking?_of_linkedOnce (h : a.Permuted b) (ha : build options root a = .ok c)
    (hb : build options root b = .ok c') (hlinked : LinkedOnce c a) (branch : LocalBranch) :
    c.tracking? branch = c'.tracking? branch := by
  have hsame : linked? c' = linked? c := by
    unfold linked?
    rw [tracked_of_permuted h ha hb]
  rw [tracking?_of_build ha, tracking?_of_build hb, hsame]
  cases hfirst : a.locals.find? fun e => localKey e = branch with
  | none =>
    have hnone : (b.locals.find? fun e => localKey e = branch) = none := by
      rw [List.find?_eq_none] at hfirst ⊢
      exact fun e he => hfirst e (h.locals.mem_iff.2 he)
    rw [hnone]
  | some e =>
    have hmem := List.mem_of_find?_eq_some hfirst
    have hfound := List.find?_some hfirst
    have hkey : localKey e = branch := of_decide_eq_true hfound
    obtain ⟨e', hfirst'⟩ : ∃ e', (b.locals.find? fun e => localKey e = branch) = some e' :=
      Option.isSome_iff_exists.1
        (List.find?_isSome.2 ⟨e, h.locals.mem_iff.1 hmem, decide_eq_true hkey⟩)
    have hmem' := List.mem_of_find?_eq_some hfirst'
    have hfound' := List.find?_some hfirst'
    have hkey' : localKey e' = branch := of_decide_eq_true hfound'
    rw [hfirst', Option.bind_some, Option.bind_some]
    exact hlinked e hmem e' (h.locals.mem_iff.2 hmem') (hkey.trans hkey'.symm)

/-- A listing with one of its local branches moved to the front. -/
def withFirst (e : LocalRef) (listing : Listing) : Listing :=
  { listing with locals := e :: listing.locals.erase e }

theorem permuted_withFirst {e : LocalRef} (he : e ∈ a.locals) : a.Permuted (withFirst e a) :=
  ⟨List.perm_cons_erase he, .refl _, .refl _⟩

/-- The first entry of all links its branch. -/
theorem tracking?_of_withFirst {e : LocalRef} (h : build options root (withFirst e a) = .ok c) :
    c.tracking? (localKey e) = linked? c e := by
  rw [tracking?_of_build h, withFirst, List.find?_cons_of_pos (by simp), Option.bind_some]

/-- In every order the same is built exactly when all entries of a local branch link it to the same
branch. -/
theorem build_permuted_iff (ha : build options root a = .ok c) :
    (∀ b, a.Permuted b → build options root b = .ok c) ↔ LinkedOnce c a := by
  constructor
  · intro hall e he e' he' hkey
    rw [← tracking?_of_withFirst (hall _ (permuted_withFirst he)), hkey,
      tracking?_of_withFirst (hall _ (permuted_withFirst he'))]
  · intro hlinked b hb
    obtain ⟨c', hbuilt⟩ := (exists_build_of_permuted hb).1 ⟨c, ha⟩
    rw [hbuilt, eq_of_tracking? (tracked_of_permuted hb ha hbuilt)
      (fun branch => commit?_of_permuted hb ha hbuilt (.ofLocal branch))
      (tracking?_of_linkedOnce hb ha hbuilt hlinked)]

/-- In every order of a listing a collection is built or in none, and the branches with their
commits are the same. So is what the local branches track, and with it the fingerprint of a
snapshot, exactly when all entries of a local branch link it to the same branch of the collection or
all to none. -/
theorem build_any_order (options : CatalogOptions) (root : Path) (a : Listing) :
    (∀ b, a.Permuted b →
      ((∃ c, build options root a = .ok c) ↔ ∃ c, build options root b = .ok c)) ∧
    (∀ b c c', a.Permuted b → build options root a = .ok c → build options root b = .ok c' →
      c.tracked = c'.tracked ∧ ∀ branch, c.commit? branch = c'.commit? branch) ∧
    ∀ c, build options root a = .ok c →
      ((∀ b, a.Permuted b → build options root b = .ok c) ↔ LinkedOnce c a) ∧
      (LinkedOnce c a → ∀ b c', a.Permuted b → build options root b = .ok c' →
        ∀ layout head state remotes remotes',
          (Snapshot.fresh layout c head state remotes).fingerprint =
            (Snapshot.fresh layout c' head state remotes').fingerprint) := by
  refine ⟨fun b h => exists_build_of_permuted h, fun b c c' h ha hb => ?_, fun c ha => ?_⟩
  · exact ⟨tracked_of_permuted h ha hb, commit?_of_permuted h ha hb⟩
  · refine ⟨build_permuted_iff ha, fun hlinked b c' h hb layout head state remotes remotes' => ?_⟩
    obtain rfl := Except.ok.inj (((build_permuted_iff ha).2 hlinked b h).symm.trans hb)
    rfl

/-- The collection of the listing with repeated entries when its local branch tracks the given
one. -/
def repeatedCollection (tracking : Option RemoteBranch) : BranchCollection where
  locals := .ofList [(⟨.master⟩, ⟨.ofNumber 1, tracking⟩)]
  tracked := .ofList [(⟨"origin", .master⟩, .ofNumber 2)]

/-- A snapshot with the collection. -/
def repeatedSnapshot (tracking : Option RemoteBranch) : Snapshot :=
  .fresh ⟨⟨"/r"⟩, ⟨"/r/.git"⟩, ⟨"/r/.git"⟩⟩ (repeatedCollection tracking) .unknown .clean []

/-- The entry of a local branch that tracks nothing comes after one that tracks a branch, or before
it: the collections differ, and so do the bytes that the fingerprints of their snapshots are computed
from. -/
theorem build_differs_reordered :
    ∃ b, repeatedListing.Permuted b ∧
      build .unrestricted ⟨"/r"⟩ repeatedListing =
        .ok (repeatedCollection (some ⟨"origin", .master⟩)) ∧
      build .unrestricted ⟨"/r"⟩ b = .ok (repeatedCollection none) ∧
      repeatedCollection (some ⟨"origin", .master⟩) ≠ repeatedCollection none ∧
      (repeatedSnapshot (some ⟨"origin", .master⟩)).hashed ≠ (repeatedSnapshot none).hashed := by
  have hplain {tracking : Option RemoteBranch}
      (h : ∀ b, tracking = some b → '\n' ∉ b.remote.toList) :
      (repeatedSnapshot tracking).Plain := by
    refine ⟨fun e he => ?_, fun e he b hb => ?_⟩
    · obtain rfl := List.mem_singleton.1 he
      decide
    · obtain rfl := List.mem_singleton.1 he
      exact h b hb
  refine ⟨withFirst ⟨.master, .ofNumber 1, none⟩ repeatedListing, permuted_withFirst (by decide),
    by decide +kernel, by decide +kernel, by decide, fun hsame => ?_⟩
  rw [Snapshot.hashed_eq_iff (hplain fun b hb => Option.some.inj hb ▸ by decide)
    (hplain fun b hb => by cases hb)] at hsame
  exact absurd (hsame.locals ⟨.master⟩) (by decide)

end Catalog

end WorktreeTracker
