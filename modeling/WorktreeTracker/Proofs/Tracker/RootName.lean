import WorktreeTracker.Proofs.FileTree.Canonical
import WorktreeTracker.Proofs.Tracker.Naming

/-!
# How roots are named

An absolute path is named after its nearest part that leads anywhere: the canonical path of that part,
and then the components that are left, as they are. Only when two dots are left the path is kept as it
was given, although a part of it is there. A name that is made in this way is named the same again
exactly when no link is found on the way along it.
-/

namespace WorktreeTracker.Tracker

open WorktreeTracker.Path

variable {t : FileTree} {p p' q : Path} {front back : List Component}

/-! ## Leading parts -/

/-- What a path starts with when `back` is left out at its end: the path as it is written when nothing
is left out, and otherwise the path that the components before make. -/
def leading (p : Path) (front back : List Component) : Path :=
  if back = [] then p else ofComponents front

/-- The nearest part of an absolute path: it leads to `q`, and no longer part leads anywhere. -/
structure Nearest (t : FileTree) (p : Path) (front back : List Component) (q : Path) : Prop where
  absolute : p.isAbsolute = true
  split : p.components = front ++ back
  leads : t.canonicalPath (leading p front back) = .ok q
  longest : ∀ more rest, back = more ++ rest → more ≠ [] →
    ∃ fault, t.canonicalPath (leading p (front ++ more) rest) = .error fault

/-- A leading part leads where its components lead. -/
theorem canonicalPath_of_leading (habsolute : p.isAbsolute = true)
    (hsplit : p.components = front ++ back)
    (h : t.canonicalPath (leading p front back) = .ok q) :
    t.canonicalPath (ofComponents front) = .ok q := by
  rw [leading] at h
  split at h
  next hnil =>
    rw [hnil, List.append_nil] at hsplit
    rw [← hsplit]
    exact FileTree.canonicalPath_components habsolute h
  next => exact h

/-- A longest leading part is there when one is. -/
theorem exists_nearest_of_leads (habsolute : p.isAbsolute = true)
    (hsplit : p.components = front ++ back)
    (h : t.canonicalPath (leading p front back) = .ok q) :
    ∃ front back q, Nearest t p front back q := by
  induction hlength : back.length using Nat.strong_induction_on generalizing front back q with
  | _ length ih =>
    by_cases hlonger : ∃ more rest r, back = more ++ rest ∧ more ≠ [] ∧
        t.canonicalPath (leading p (front ++ more) rest) = .ok r
    · obtain ⟨more, rest, r, rfl, hne, hr⟩ := hlonger
      refine ih rest.length ?_ (by rw [hsplit, List.append_assoc]) hr rfl
      have hpos := List.length_pos_iff.2 hne
      rw [List.length_append] at hlength
      omega
    · refine ⟨front, back, q, habsolute, hsplit, h, fun more rest hback hne => ?_⟩
      cases hr : t.canonicalPath (leading p (front ++ more) rest) with
      | error fault => exact ⟨fault, rfl⟩
      | ok r => exact absurd ⟨more, rest, r, hback, hne, hr⟩ hlonger

/-- Every absolute path has a nearest part, if only the root directory, unless it is written with
nothing but slashes and dots and refused. -/
theorem exists_nearest (habsolute : p.isAbsolute = true) :
    (∃ front back q, Nearest t p front back q) ∨ p.components = [.root] := by
  have hcomponents := components_of_isAbsolute habsolute
  by_cases hinner : p.inner = []
  · rw [hinner] at hcomponents
    exact .inr hcomponents
  · have hroot : t.canonicalPath (leading p [.root] p.inner) = .ok ⟨"/"⟩ := by
      rw [leading, if_neg hinner]
      exact t.canonicalPath_root
    exact .inl (exists_nearest_of_leads habsolute hcomponents hroot)

/-- The nearest part is told by the first part that leads nowhere. -/
theorem nearest_of_missing {c : Component} (habsolute : p.isAbsolute = true)
    (hsplit : p.components = front ++ c :: back)
    (hleads : t.canonicalPath (ofComponents front) = .ok q)
    (hmissing : ∃ fault, t.canonicalPath (ofComponents (front ++ [c])) = .error fault) :
    Nearest t p front (c :: back) q := by
  refine ⟨habsolute, hsplit, ?_, fun more rest hback hne => ?_⟩
  · rw [leading, if_neg (List.cons_ne_nil c back)]
    exact hleads
  · obtain ⟨fault, hfault⟩ := hmissing
    cases hr : t.canonicalPath (leading p (front ++ more) rest) with
    | error fault => exact ⟨fault, rfl⟩
    | ok r =>
      obtain ⟨d, more, rfl⟩ := List.exists_cons_of_ne_nil hne
      obtain ⟨rfl, rfl⟩ := List.cons.inj hback
      have hcut : p.components = front ++ c :: more ++ rest := by
        rw [hsplit, List.append_assoc]
        rfl
      have hshort : front ++ [c] <+: front ++ c :: more := ⟨more, by simp⟩
      obtain ⟨s, hs⟩ := FileTree.exists_canonicalPath_of_prefix habsolute ⟨rest, hcut.symm⟩ hshort
        (by simp) (canonicalPath_of_leading habsolute hcut hr)
      cases hfault.symm.trans hs

/-! ## Names -/

/-- The nearest part starts with the root directory. -/
theorem Nearest.exists_front (h : Nearest t p front back q) :
    ∃ names, front = .root :: names ∧ p.inner = names ++ back := by
  have hsplit := h.split
  rw [components_of_isAbsolute h.absolute] at hsplit
  cases front with
  | nil =>
    -- no components lead nowhere
    have hleads := canonicalPath_of_leading h.absolute h.split h.leads
    obtain ⟨found, hfound, -⟩ := FileTree.canonicalPath_eq_ok.1 hleads
    exact absurd rfl (FileTree.isPlainText_of_resolve hfound).1
  | cons c names =>
    obtain ⟨rfl, hinner⟩ := List.cons.inj hsplit
    exact ⟨names, rfl, hinner⟩

/-- The components that are left after the nearest part of a path are names or two dots. -/
theorem Nearest.isInner_of_mem (h : Nearest t p front back q) : ∀ c ∈ back, IsInner c := by
  obtain ⟨names, -, hinner⟩ := h.exists_front
  intro c hc
  exact isInner_of_mem_inner (hinner ▸ List.mem_append_right names hc)

/-- A part that leads somewhere is named by its canonical path. -/
theorem nearestCanonical?_of_ok {reversed : List Component}
    (h : t.canonicalPath (ofComponents reversed.reverse) = .ok q) :
    nearestCanonical? t reversed = some q := by
  rw [nearestCanonical?.eq_def]
  split
  next => rw [h]
  next => rw [h]; rfl

/-- A name more after a part that has a canonical name. Two dots more have none. -/
def extend (named : Option Path) : Component → Option Path
  | .name text => named.map (· / text)
  | _ => none

/-- A part that leads nowhere is named after the part before it. -/
theorem nearestCanonical?_of_error {parts : List Component} {last : Component} {fault : Fault}
    (h : t.canonicalPath (ofComponents (parts ++ [last])) = .error fault) :
    nearestCanonical? t (parts ++ [last]).reverse =
      extend (nearestCanonical? t parts.reverse) last := by
  rw [List.reverse_concat]
  have hback : t.canonicalPath (ofComponents (last :: parts.reverse).reverse) = .error fault := by
    rwa [List.reverse_cons, List.reverse_reverse]
  cases last with
  | name text =>
    rw [nearestCanonical?, hback]
    rfl
  | _ =>
    rw [nearestCanonical?, hback]
    · rfl
    · rintro text rest ⟨⟩

/-- A path that leads nowhere is named after the part before its last component, if that has a
name. -/
theorem normalizeRoot_of_error {parts : List Component} {last : Component} {fault : Fault}
    (h : t.canonicalPath p = .error fault) (hp : p.components = parts ++ [last]) :
    normalizeRoot t p = (extend (nearestCanonical? t parts.reverse) last).getD p := by
  rw [normalizeRoot, h, hp, List.reverse_concat]
  cases last with
  | name text =>
    dsimp only [extend]
    cases nearestCanonical? t parts.reverse with
    | none => rfl
    | some path => rfl
  | _ => rfl

/-- What is named by what is left after the nearest part. -/
structure Named (q : Path) (back : List Component) (named : Option Path) : Prop where
  none_of_up : .up ∈ back → named = none
  some_of_names : .up ∉ back → ∃ path, named = some path ∧ path.isAbsolute = true ∧
    path.components = q.components ++ back

theorem Named.concat {named : Option Path} (h : Named q back named) {last : Component}
    (hlast : IsInner last) : Named q (back ++ [last]) (extend named last) := by
  rcases hlast.cases with rfl | ⟨text, rfl, hpart, hcomponent⟩
  · exact ⟨fun _ => rfl, fun hnames => absurd (by simp) hnames⟩
  · have hup : .up ∈ back ++ [.name text] ↔ .up ∈ back := by simp
    refine ⟨fun hin => ?_, fun hnames => ?_⟩
    · rw [h.none_of_up (hup.1 hin)]
      rfl
    · obtain ⟨path, rfl, habsolute, hcomponents⟩ := h.some_of_names (mt hup.2 hnames)
      refine ⟨path / text, rfl, (path.isAbsolute_div hpart.relative).trans habsolute, ?_⟩
      rw [components_div habsolute hpart hcomponent, hcomponents, List.append_assoc]

/-- What is left is put after the canonical path of the nearest part, unless two dots are left. -/
theorem named_of_longest (hleads : t.canonicalPath (ofComponents front) = .ok q)
    (hback : ∀ c ∈ back, IsInner c)
    (hlongest : ∀ more rest, back = more ++ rest → more ≠ [] →
      ∃ fault, t.canonicalPath (ofComponents (front ++ more)) = .error fault) :
    Named q back (nearestCanonical? t (front ++ back).reverse) := by
  induction back using List.reverseRecOn with
  | nil =>
    refine ⟨by simp, fun _ => ⟨q, ?_, FileTree.isAbsolute_of_canonicalPath hleads, by simp⟩⟩
    refine nearestCanonical?_of_ok ?_
    rwa [List.reverse_reverse, List.append_nil]
  | append_singleton back last ih =>
    obtain ⟨fault, hfault⟩ := hlongest (back ++ [last]) [] (by simp) (by simp)
    rw [← List.append_assoc] at hfault ⊢
    rw [nearestCanonical?_of_error hfault]
    refine (ih (fun c hc => hback c (List.mem_append_left _ hc)) fun more rest hsplit hne => ?_).concat
      (hback last (by simp))
    exact hlongest more (rest ++ [last]) (by rw [hsplit, List.append_assoc]) hne

/-- What a path is named by: its canonical path when nothing is left after the nearest part, and
otherwise what is left put after the canonical path of that part, or the path itself. -/
theorem Nearest.exists_named (h : Nearest t p front back q) :
    ∃ named, Named q back named ∧ normalizeRoot t p = named.getD p := by
  have hleads := canonicalPath_of_leading h.absolute h.split h.leads
  rcases List.eq_nil_or_concat back with rfl | ⟨init, last, rfl⟩
  · refine ⟨some q, ⟨by simp, fun _ => ?_⟩, ?_⟩
    · exact ⟨q, rfl, FileTree.isAbsolute_of_canonicalPath hleads, (List.append_nil _).symm⟩
    · have hp : t.canonicalPath p = .ok q := h.leads
      rw [normalizeRoot, hp]
      rfl
  · rw [List.concat_eq_append] at h ⊢
    have hinner := h.isInner_of_mem
    obtain ⟨fault, hfault⟩ := h.longest (init ++ [last]) [] (by simp) (by simp)
    have hparts : p.components = front ++ init ++ [last] := by rw [h.split, List.append_assoc]
    refine ⟨_, ?_, normalizeRoot_of_error hfault hparts⟩
    have hinit : Named q init (nearestCanonical? t (front ++ init).reverse) := by
      refine named_of_longest hleads (fun c hc => hinner c (List.mem_append_left _ hc)) ?_
      intro more rest hsplit hne
      have hlonger := h.longest more (rest ++ [last]) (by rw [hsplit, List.append_assoc]) hne
      rwa [leading, if_neg (by simp)] at hlonger
    exact hinit.concat (hinner last (by simp))

/-- A path with two dots left after its nearest part is kept as it was given. -/
theorem Nearest.normalizeRoot_of_up (h : Nearest t p front back q) (hup : .up ∈ back) :
    normalizeRoot t p = p := by
  obtain ⟨named, hnamed, hroot⟩ := h.exists_named
  rw [hroot, hnamed.none_of_up hup]
  rfl

/-- A path with no two dots left is named by the canonical path of its nearest part and the names
that are left. -/
theorem Nearest.keyOf_of_names (h : Nearest t p front back q) (hup : .up ∉ back) :
    (normalizeRoot t p).isAbsolute = true ∧ keyOf t p = q.components ++ back := by
  obtain ⟨named, hnamed, hroot⟩ := h.exists_named
  obtain ⟨path, rfl, habsolute, hcomponents⟩ := hnamed.some_of_names hup
  rw [keyOf, hroot]
  exact ⟨habsolute, hcomponents⟩

/-! ## Naming again -/

/-- The canonical path of the nearest part is canonical. -/
theorem Nearest.isCanonical (h : Nearest t p front back q) : t.IsCanonical q.components := by
  obtain ⟨names, rfl, -⟩ := h.exists_front
  have habsolute : (ofComponents (.root :: names)).isAbsolute = true :=
    (startsWith_append (by decide) _).trans (by decide)
  exact FileTree.isCanonical_of_canonicalPath habsolute
    (canonicalPath_of_leading h.absolute h.split h.leads)

theorem Nearest.up_not_mem (h : Nearest t p front back q) : .up ∉ q.components := by
  obtain ⟨names, hnames, hq⟩ := FileTree.components_of_canonical
    (canonicalPath_of_leading h.absolute h.split h.leads)
  rw [hq, List.mem_cons, not_or]
  refine ⟨by simp, fun hin => ?_⟩
  obtain ⟨text, htext⟩ := hnames _ hin
  cases htext

/-- A path that is written as its components make it has the parts that they make. -/
theorem leading_of_written (hwritten : ofComponents p.components = p)
    (hsplit : p.components = front ++ back) : leading p front back = ofComponents front := by
  rw [leading]
  split
  next hnil => rw [← hwritten, hsplit, hnil, List.append_nil]
  next => rfl

/-- A plain path of names is its own name exactly when it is canonical as far as it leads. -/
theorem normalizeRoot_eq_self_iff (habsolute : p.isAbsolute = true) (hplain : p.Plain)
    (hup : .up ∉ p.components) : normalizeRoot t p = p ↔ t.IsCanonical p.components := by
  have hwritten := hplain.ofComponents_components habsolute
  rcases exists_nearest (t := t) habsolute with ⟨front, back, q, h⟩ | hroot
  · have hleads := canonicalPath_of_leading h.absolute h.split h.leads
    have hnames : .up ∉ back := fun hin => hup (h.split ▸ List.mem_append_right front hin)
    have hplainAgain : (normalizeRoot t p).Plain := by
      rcases normalizeRoot_cases t p with hcanonical | ⟨hsame, -⟩
      · exact hcanonical
      · rwa [hsame]
    have hkey : normalizeRoot t p = p ↔ q.components = front := by
      rw [← List.append_left_inj back, ← (h.keyOf_of_names hnames).2, ← h.split]
      exact ⟨fun hsame => congrArg components hsame,
        fun hsame => hplainAgain.eq_of_same hplain (decide_eq_true hsame)⟩
    rw [hkey]
    constructor
    · rintro rfl part r hpart hr
      rcases List.prefix_or_prefix_of_prefix hpart ⟨back, h.split.symm⟩ with hshort | ⟨more, rfl⟩
      · exact h.isCanonical part r hshort hr
      · -- no part longer than the nearest one leads anywhere
        rw [h.split, List.prefix_append_right_inj] at hpart
        obtain ⟨rest, rfl⟩ := hpart
        by_cases hmore : more = []
        · rw [hmore, List.append_nil] at hr ⊢
          exact h.isCanonical _ r List.prefix_rfl hr
        · obtain ⟨fault, hfault⟩ := h.longest more rest rfl hmore
          rw [leading_of_written hwritten (by rw [h.split, List.append_assoc]), hr] at hfault
          cases hfault
    · exact fun hcanonical => hcanonical front q ⟨back, h.split.symm⟩ hleads
  · have hself : t.canonicalPath p = .ok p := by
      rw [← hwritten, hroot]
      exact t.canonicalPath_root
    rw [normalizeRoot, hself]
    exact iff_of_true rfl (FileTree.isCanonical_of_canonicalPath habsolute hself)

/-- Naming an absolute path again changes nothing exactly when the path is kept as it was given or its
name is canonical. -/
theorem normalizeRoot_normalizeRoot_iff (habsolute : p.isAbsolute = true) :
    normalizeRoot t (normalizeRoot t p) = normalizeRoot t p ↔
      normalizeRoot t p = p ∨ t.IsCanonical (keyOf t p) := by
  by_cases hsame : normalizeRoot t p = p
  · rw [hsame]
    exact iff_of_true hsame (.inl rfl)
  · rw [or_iff_right hsame]
    have hplain : (normalizeRoot t p).Plain :=
      (normalizeRoot_cases t p).resolve_right fun hkept => hsame hkept.1
    have hnames : (normalizeRoot t p).isAbsolute = true ∧ .up ∉ keyOf t p := by
      rcases exists_nearest (t := t) habsolute with ⟨front, back, q, h⟩ | hroot
      · by_cases hup : .up ∈ back
        · exact absurd (h.normalizeRoot_of_up hup) hsame
        · obtain ⟨habsoluteRoot, hkey⟩ := h.keyOf_of_names hup
          refine ⟨habsoluteRoot, fun hin => ?_⟩
          rw [hkey] at hin
          rcases List.mem_append.1 hin with hin | hin
          · exact h.up_not_mem hin
          · exact hup hin
      · have hkey := keyOf_of_root (t := t) hroot
        refine ⟨isAbsolute_of_components hkey, ?_⟩
        rw [hkey]
        decide
    exact normalizeRoot_eq_self_iff hnames.1 hplain hnames.2

/-- The name stays when what is left after the nearest part is not found after its canonical path,
either. -/
theorem Nearest.normalizeRoot_normalizeRoot (h : Nearest t p front back q)
    (hmissing : ∀ c rest, back = c :: rest →
      ∃ fault, t.canonicalPath (ofComponents (q.components ++ [c])) = .error fault) :
    normalizeRoot t (normalizeRoot t p) = normalizeRoot t p := by
  rw [normalizeRoot_normalizeRoot_iff h.absolute]
  by_cases hup : .up ∈ back
  · exact .inl (h.normalizeRoot_of_up hup)
  · obtain ⟨habsolute, hkey⟩ := h.keyOf_of_names hup
    refine .inr fun part r hpart hr => ?_
    have hin : part <+: q.components ++ back := hkey ▸ hpart
    rcases List.prefix_or_prefix_of_prefix hin (List.prefix_append q.components back) with
      hshort | ⟨more, rfl⟩
    · exact h.isCanonical part r hshort hr
    · rw [List.prefix_append_right_inj] at hin
      cases more with
      | nil =>
        rw [List.append_nil] at hr ⊢
        exact h.isCanonical _ r List.prefix_rfl hr
      | cons c more =>
        obtain ⟨rest, rfl⟩ := hin
        obtain ⟨fault, hfault⟩ := hmissing c (more ++ rest) rfl
        have hshort : q.components ++ [c] <+: q.components ++ c :: more := ⟨more, by simp⟩
        obtain ⟨s, hs⟩ := FileTree.exists_canonicalPath_of_prefix habsolute hpart hshort (by simp) hr
        cases hfault.symm.trans hs

/-! ## Roots and their names -/

/-- How absolute paths are named. There is a nearest part that leads anywhere, and where it leads is
told by a canonical path. The name is that path with what is left put after it, unless two dots are
left: then the path is kept as it was given, which is the same only for a part that leads to itself.
Naming again changes nothing exactly when the path is kept or its name is canonical, and so it is when
what is left is missing after the canonical path, too. So two paths with the same things left after two
spellings of one directory have the same name, within every root that contains the directory. -/
theorem normalizeRoot_nearest (t : FileTree) :
    (∀ p, p.isAbsolute = true → (∃ front back q, Nearest t p front back q) ∨
      p.components = [.root] ∧ keyOf t p = [.root]) ∧
    (∀ p front c back q, p.isAbsolute = true → p.components = front ++ c :: back →
      t.canonicalPath (ofComponents front) = .ok q →
      (∃ fault, t.canonicalPath (ofComponents (front ++ [c])) = .error fault) →
      Nearest t p front (c :: back) q) ∧
    (∀ p front back q, Nearest t p front back q →
      t.IsCanonical q.components ∧
      (keyOf t p = q.components ++ back ↔ (.up ∈ back → q.components = front)) ∧
      (.up ∈ back → normalizeRoot t p = p) ∧
      ((∀ c rest, back = c :: rest →
          ∃ fault, t.canonicalPath (ofComponents (q.components ++ [c])) = .error fault) →
        normalizeRoot t (normalizeRoot t p) = normalizeRoot t p)) ∧
    (∀ p, p.isAbsolute = true →
      (normalizeRoot t (normalizeRoot t p) = normalizeRoot t p ↔
        normalizeRoot t p = p ∨ t.IsCanonical (keyOf t p))) ∧
    ∀ p p' front front' back q, Nearest t p front back q → Nearest t p' front' back q →
      .up ∉ back → keyOf t p = keyOf t p' ∧ ∀ root, root <+: q.components → root <+: keyOf t p := by
  refine ⟨fun p habsolute => ?_, fun p front c back q => nearest_of_missing, ?_,
    fun p => normalizeRoot_normalizeRoot_iff, ?_⟩
  · exact (exists_nearest habsolute).imp_right fun hroot => ⟨hroot, keyOf_of_root hroot⟩
  · intro p front back q h
    refine ⟨h.isCanonical, ?_, h.normalizeRoot_of_up, h.normalizeRoot_normalizeRoot⟩
    by_cases hup : .up ∈ back
    · rw [keyOf, h.normalizeRoot_of_up hup, h.split, List.append_left_inj]
      exact ⟨fun hsame _ => hsame.symm, fun hsame => (hsame hup).symm⟩
    · exact iff_of_true (h.keyOf_of_names hup).2 fun hin => absurd hin hup
  · intro p p' front front' back q h h' hup
    have hkey := (h.keyOf_of_names hup).2
    refine ⟨hkey.trans (h'.keyOf_of_names hup).2.symm, fun root hroot => ?_⟩
    rw [hkey]
    exact hroot.trans (List.prefix_append q.components back)

/-- A directory with a file, and a link to each of them. -/
def spelledTwice : FileTree where
  entries := [
    (["a"], .directory), (["a", "f"], .file .empty), (["l"], .link "a"), (["m"], .link "a/f")]
  workingDirectory := []
  named := by decide

/-- What is not there yet has one name through the link and without it, and the name stays. -/
theorem normalizeRoot_nearest_spelledTwice :
    keyOf spelledTwice ⟨"/l/new/x"⟩ = [.root, .name "a", .name "new", .name "x"] ∧
      keyOf spelledTwice ⟨"/l/new/x"⟩ = keyOf spelledTwice ⟨"/a//new/x"⟩ ∧
      normalizeRoot spelledTwice (normalizeRoot spelledTwice ⟨"/l/new/x"⟩) =
        normalizeRoot spelledTwice ⟨"/l/new/x"⟩ ∧
      spelledTwice.IsCanonical (keyOf spelledTwice ⟨"/l/new/x"⟩) := by
  obtain ⟨-, hmissing, hnearest, hagain, hsame⟩ := normalizeRoot_nearest spelledTwice
  have hlinked := hmissing ⟨"/l/new/x"⟩ [.root, .name "l"] (.name "new") [.name "x"] ⟨"/a"⟩
    (by decide +kernel) (by decide +kernel) (by decide +kernel) ⟨.notFound, by decide +kernel⟩
  have hdirect := hmissing ⟨"/a//new/x"⟩ [.root, .name "a"] (.name "new") [.name "x"] ⟨"/a"⟩
    (by decide +kernel) (by decide +kernel) (by decide +kernel) ⟨.notFound, by decide +kernel⟩
  obtain ⟨-, hkey, -, hstays⟩ := hnearest _ _ _ _ hlinked
  have hstays := hstays fun c rest hback => by
    obtain ⟨rfl, -⟩ := List.cons.inj hback
    exact ⟨.notFound, by decide +kernel⟩
  refine ⟨hkey.2 fun hup => absurd hup (by decide), (hsame _ _ _ _ _ _ hlinked hdirect (by decide)).1,
    hstays, ?_⟩
  exact ((hagain _ (by decide +kernel)).1 hstays).resolve_left (by decide +kernel)

/-- With two dots after what is not there yet a path is not named after the link, although the link is
there. With a slash after a link to a file the path is named by the link, and that name is another one
when it is named again. -/
theorem normalizeRoot_unnamed :
    spelledTwice.canonicalPath ⟨"/l"⟩ = .ok ⟨"/a"⟩ ∧
      spelledTwice.canonicalPath ⟨"/l/new"⟩ = .error .notFound ∧
      (Path.mk "/l/new/../x").components = [.root, .name "l", .name "new", .up, .name "x"] ∧
      keyOf spelledTwice ⟨"/l/new/../x"⟩ ≠ [.root, .name "a", .name "new", .up, .name "x"] ∧
      normalizeRoot spelledTwice (normalizeRoot spelledTwice ⟨"/m/"⟩) ≠
        normalizeRoot spelledTwice ⟨"/m/"⟩ := by
  decide +kernel

end WorktreeTracker.Tracker
