import WorktreeTracker.Proofs.FileTree.Components
import WorktreeTracker.Proofs.Locate
import WorktreeTracker.Proofs.Tracker.Registration

/-!
# Names that stay

A root that leads to itself, with no link on the way, is its own name. Every path that is named after
it has one and the same name then, as long as it leads to itself, whatever else the files are.
-/

namespace WorktreeTracker

open WorktreeTracker.Path

namespace FileTree

variable {t : FileTree}

/-- A path of nothing but slashes and dots that starts at the root directory leads there. -/
theorem canonicalPath_of_root {p q : Path} (hp : p.components = [.root])
    (h : t.canonicalPath p = .ok q) : q.components = [.root] := by
  have habsolute := isAbsolute_of_components hp
  have hinner : p.inner = [] := (List.cons.inj ((components_of_isAbsolute habsolute).symm.trans hp)).2
  obtain ⟨⟨place, entry⟩, hfound, rfl⟩ := map_eq_ok.1 h
  have hfollowed := followLinks_of_resolve hfound
  rw [hinner, start, if_pos habsolute] at hfollowed
  obtain ⟨rfl, -⟩ := followLinks_nil_eq_ok.1 hfollowed
  show (ofLocation []).components = [.root]
  decide

/-- A canonical path starts at the root directory and goes on with names. -/
theorem components_of_canonical {p q : Path} (h : t.canonicalPath p = .ok q) :
    ∃ names, (∀ c ∈ names, ∃ text, c = Component.name text) ∧ q.components = .root :: names := by
  obtain ⟨found, hfound, rfl⟩ := map_eq_ok.1 h
  refine ⟨found.1.map .name, fun c hc => ?_,
    components_ofLocation (isEntryName_of_entryAt? (entryAt?_of_resolve hfound))⟩
  obtain ⟨name, -, rfl⟩ := List.mem_map.1 hc
  exact ⟨name, rfl⟩

/-- The root directory is its own name. -/
theorem canonicalPath_root (t : FileTree) : t.canonicalPath ⟨"/"⟩ = .ok ⟨"/"⟩ := by
  rfl

end FileTree

namespace Tracker

variable {t t' : FileTree} {p q root : Path}

/-- Every absolute path of names has a nearest part that is there, if only the root directory. -/
theorem nearestCanonical?_ne_none (t : FileTree) {names : List Component}
    (hnames : ∀ c ∈ names, ∃ text, c = .name text) :
    nearestCanonical? t (names ++ [.root]) ≠ none := by
  induction names with
  | nil =>
    have hroot : ofComponents [Component.root] = ⟨"/"⟩ := rfl
    rw [List.nil_append, nearestCanonical?, List.reverse_singleton, hroot, t.canonicalPath_root]
    · exact Option.some_ne_none _
    · rintro text rest ⟨⟩
  | cons c names ih =>
    obtain ⟨text, rfl⟩ := hnames c List.mem_cons_self
    rw [List.cons_append, nearestCanonical?]
    split
    next => exact Option.some_ne_none _
    next =>
      rw [ne_eq, Option.map_eq_none_iff]
      exact ih fun other hother => hnames other (List.mem_cons_of_mem _ hother)

/-- An absolute path of names is registered under a plain path. -/
theorem plain_normalizeRoot_of_names {names : List Component} (hne : names ≠ [])
    (hnames : ∀ c ∈ names, ∃ text, c = .name text) (hp : p.components = .root :: names) :
    (normalizeRoot t p).Plain := by
  rcases normalizeRoot_cases t p with hplain | ⟨-, fault, hfault⟩
  · exact hplain
  have hparts : ∀ text, .name text ∈ p.components → IsPart text := fun _ => isPart_of_mem_components
  obtain ⟨front, last, rfl⟩ : ∃ front last, names = front ++ [last] :=
    ⟨_, _, (List.dropLast_append_getLast hne).symm⟩
  obtain ⟨text, rfl⟩ := hnames last (by simp)
  have hreversed : p.components.reverse = .name text :: (front.reverse ++ [.root]) := by
    simp [hp]
  have hfront : ∀ c ∈ front.reverse, ∃ text, c = .name text :=
    fun c hc => hnames c (List.mem_append_left _ (List.mem_reverse.1 hc))
  obtain ⟨nearest, hnearest⟩ := Option.ne_none_iff_exists'.1 (nearestCanonical?_ne_none t hfront)
  rw [normalizeRoot, hfault, hreversed]
  dsimp only
  rw [hnearest]
  refine (plain_nearestCanonical? (fun other hother => hparts other ?_) hnearest).div
    (hparts text ?_)
  · rw [← List.mem_reverse, hreversed]
    exact List.mem_cons_of_mem _ hother
  · rw [← List.mem_reverse, hreversed]
    exact List.mem_cons_self

/-- A path of nothing but slashes and dots is named after the root directory. -/
theorem keyOf_of_root (hp : p.components = [.root]) : keyOf t p = [.root] := by
  rw [keyOf, normalizeRoot]
  cases hpath : t.canonicalPath p with
  | ok path => exact FileTree.canonicalPath_of_root hp hpath
  | error fault =>
    rw [hp]
    exact hp

/-- A root that leads to itself is its own name. -/
theorem keyOf_of_canonical (hq : t.canonicalPath q = .ok q) : keyOf t q = q.components := by
  rw [keyOf, normalizeRoot, hq]

/-- The name of a root that leads to itself has the same name, also when the files have changed, as
long as that root still leads to itself. -/
theorem keyOf_normalizeRoot (hq : t.canonicalPath q = .ok q) (hq' : t'.canonicalPath q = .ok q)
    (hroot : keyOf t root = q.components) : keyOf t' (normalizeRoot t root) = q.components := by
  have hplain : (normalizeRoot t root).Plain →
      keyOf t' (normalizeRoot t root) = q.components := by
    intro hplain
    rw [hplain.eq_of_same (FileTree.plain_canonicalPath hq) (decide_eq_true hroot)]
    exact keyOf_of_canonical hq'
  rcases normalizeRoot_cases t root with hnormal | ⟨hsame, -⟩
  · exact hplain hnormal
  -- only the root directory can be named by a path that leads nowhere as it is written
  rw [keyOf, hsame] at hroot
  obtain ⟨names, hnames, hq⟩ := FileTree.components_of_canonical hq
  by_cases hne : names = []
  · rw [hq, hne] at hroot ⊢
    rw [hsame]
    exact keyOf_of_root hroot
  · exact hplain (plain_normalizeRoot_of_names hne hnames (hroot.trans hq))

end Tracker

end WorktreeTracker
