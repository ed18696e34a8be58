import Mathlib.Data.List.Nodup
import WorktreeTracker.Proofs.FileTree.Below

/-!
# Trees without a file

A tree from which one file is taken out. A path leads to the same in both trees unless it leads to
the file or through it. A walk meets the same in both but for the file, in the same order, and it
meets nothing twice.
-/

namespace WorktreeTracker

/-! ## Lists without repetitions -/

section

variable {α : Type} [BEq α] [LawfulBEq α]

/-- Taking repetitions away and keeping what has a property can be done in either order. -/
theorem filter_eraseDups (p : α → Bool) : (as : List α) →
    as.eraseDups.filter p = (as.filter p).eraseDups
  | [] => rfl
  | a :: rest => by
    have hrest := filter_eraseDups p (rest.filter fun b => !b == a)
    rw [List.filter_filter] at hrest
    rw [List.eraseDups_cons]
    cases hp : p a with
    | true =>
      rw [List.filter_cons_of_pos hp, List.filter_cons_of_pos hp, List.eraseDups_cons, hrest,
        List.filter_filter]
      simp only [Bool.and_comm]
    | false =>
      -- a member without the property takes none with it away
      have hkept : (fun b => p b && !b == a) = p := by
        funext b
        by_cases hb : b = a
        · simp [hb, hp]
        · simp [hb]
      rw [List.filter_cons_of_neg (by simp [hp]), List.filter_cons_of_neg (by simp [hp]), hrest,
        hkept]
  termination_by as => as.length
  decreasing_by exact Nat.lt_succ_of_le (List.length_filter_le _ _)

/-- A list without its repetitions has none. -/
theorem nodup_eraseDups : (as : List α) → as.eraseDups.Nodup
  | [] => .nil
  | a :: rest => by
    rw [List.eraseDups_cons, List.nodup_cons, List.mem_eraseDups, List.mem_filter]
    exact ⟨fun hmem => by simp at hmem, nodup_eraseDups (rest.filter fun b => !b == a)⟩
  termination_by as => as.length
  decreasing_by exact Nat.lt_succ_of_le (List.length_filter_le _ _)

end

namespace FileTree

variable {t : FileTree} {place : Location} {contents : ByteArray}

/-! ## Taking a file out -/

variable (t) in
/-- The tree without the entry at a place. -/
def without (place : Location) : FileTree where
  entries := t.entries.filter fun e => e.1 ≠ place
  workingDirectory := t.workingDirectory
  named := fun e he => t.named e (List.mem_filter.1 he).1

theorem lookup_filter_ne {α β : Type} [BEq α] [LawfulBEq α] [DecidableEq α] (left key : α)
    (entries : List (α × β)) :
    (entries.filter fun e => e.1 ≠ left).lookup key =
      if key = left then none else entries.lookup key := by
  induction entries with
  | nil => simp
  | cons e rest ih =>
    obtain ⟨other, value⟩ := e
    by_cases hother : other = left
    · subst hother
      rw [List.filter_cons_of_neg (by simp), ih, List.lookup_cons]
      by_cases hkey : key = other
      · rw [if_pos hkey, if_pos hkey]
      · rw [if_neg hkey, if_neg hkey, beq_false_of_ne hkey]
    · rw [List.filter_cons_of_pos (by simpa using hother), List.lookup_cons, List.lookup_cons, ih]
      by_cases hkey : key = other
      · subst hkey
        rw [beq_self_eq_true, if_neg hother, if_neg hother]
      · rw [beq_false_of_ne hkey]

/-- Only the entry of the file is missing. -/
theorem entryAt?_without (hfile : t.entryAt? place = some (.file contents)) (here : Location) :
    (t.without place).entryAt? here = if here = place then none else t.entryAt? here := by
  have hne : place ≠ [] := by
    rintro rfl
    cases hfile
  by_cases hnil : here = []
  · rw [hnil, if_neg hne.symm]
    rfl
  · rw [entryAt?_of_ne_nil hnil, entryAt?_of_ne_nil hnil]
    exact lookup_filter_ne place here t.entries

/-- A directory has the same names but for that of the file. -/
theorem names_without (here : Location) :
    (t.without place).names here = (t.names here).filter fun name => here ++ [name] ≠ place := by
  rw [names, names, filter_eraseDups, List.filter_filterMap, without, List.filterMap_filter]
  refine congrArg List.eraseDups (List.filterMap_congr fun e _ => ?_)
  cases hlast : e.1.getLast? with
  | none => simp
  | some name =>
    obtain ⟨front, hplace⟩ := List.getLast?_eq_some_iff.1 hlast
    rw [hplace, List.dropLast_concat]
    by_cases hhere : front = here
    · subst hhere
      by_cases hfile : front ++ [name] = place
      · simp [hfile, Option.filter]
      · simp [hfile, Option.filter]
    · simp [hhere]

/-! ## Following a path -/

/-- What a path leads to when the file at a place is taken out, by what it led to before: nowhere
when it led to the file or through a file, and else to the same. -/
inductive Bereft (place : Location) : Except Fault Found → Except Fault Found → Prop
  /-- The path led to the file. -/
  | found (entry : Entry) : Bereft place (.ok (place, entry)) (.error .notFound)
  /-- The path led through a file. -/
  | through : Bereft place (.error .notADirectory) (.error .notFound)
  /-- The path leads to the same as before. -/
  | same {result : Except Fault Found} (h : ∀ entry, result ≠ .ok (place, entry)) :
    Bereft place result result

/-- Without the file nothing is found from its place. -/
theorem followLinks_gone (hfile : t.entryAt? place = some (.file contents)) (links : Nat)
    (parts : List String) :
    (t.without place).followLinks true links place parts = .error .notFound := by
  have hnone : (t.without place).entryAt? place = none := by
    rw [entryAt?_without hfile, if_pos rfl]
  cases parts with
  | nil => rw [followLinks_nil, hnone]
  | cons part rest => rw [followLinks_cons, turn, hnone]

/-- From the place of the file a path leads to the file or through it. -/
theorem bereft_here (hfile : t.entryAt? place = some (.file contents)) (links : Nat)
    (parts : List String) :
    Bereft place (t.followLinks true links place parts) (.error .notFound) := by
  cases parts with
  | nil =>
    rw [followLinks_nil, hfile]
    exact .found _
  | cons part rest =>
    rw [followLinks_cons, turn, hfile]
    exact .through

/-- A name leads to the same, unless it leads to the file. -/
theorem turn_without (hfile : t.entryAt? place = some (.file contents)) {here : Location}
    (hhere : here ≠ place) (part : String) :
    (t.without place).turn here part = t.turn here part ∨
      (t.without place).turn here part = .error .notFound ∧
        t.turn here part = .ok (.reach place) := by
  rw [turn, turn, entryAt?_without hfile, entryAt?_without hfile, if_neg hhere]
  by_cases hnext : here ++ [part] = place
  · rw [if_pos hnext, hnext, hfile]
    cases t.entryAt? here with
    | none => exact .inl rfl
    | some entry =>
      cases entry with
      | file contents => exact .inl rfl
      | link target => exact .inl rfl
      | directory =>
        dsimp only
        -- only a name that is looked up in the directory leads to the file
        split
        next => exact .inl rfl
        next =>
          split
          next => exact .inl rfl
          next =>
            split
            next => exact .inl rfl
            next => exact .inr ⟨rfl, rfl⟩
  · rw [if_neg hnext]
    exact .inl rfl

/-- A path leads to the same, unless it leads to the file or through it, when that is so of what its
links point at. -/
theorem bereft_of_expansion (hfile : t.entryAt? place = some (.file contents)) {links : Nat}
    (hlinks : ∀ start parts,
      Bereft place (t.expansion links start parts) ((t.without place).expansion links start parts))
    (here : Location) (parts : List String) :
    Bereft place (t.followLinks true links here parts)
      ((t.without place).followLinks true links here parts) := by
  induction parts generalizing here with
  | nil =>
    by_cases hhere : here = place
    · rw [hhere, followLinks_gone hfile]
      exact bereft_here hfile links []
    · rw [followLinks_nil, followLinks_nil, entryAt?_without hfile, if_neg hhere]
      refine .same fun entry => ?_
      cases t.entryAt? here with
      | none => simp
      | some found => simp [hhere]
  | cons part rest ih =>
    by_cases hhere : here = place
    · rw [hhere, followLinks_gone hfile]
      exact bereft_here hfile links (part :: rest)
    rw [followLinks_cons, followLinks_cons]
    rcases turn_without hfile hhere part with hsame | ⟨hlost, hreach⟩
    · rw [hsame]
      cases t.turn here part with
      | error fault => exact .same (by simp)
      | ok next =>
        cases next with
        | reach next => exact ih next
        | link start target => exact hlinks start (target ++ rest)
    · rw [hlost, hreach]
      exact bereft_here hfile links rest

/-- A path leads to the same, unless it leads to the file or through it. -/
theorem bereft_followLinks (hfile : t.entryAt? place = some (.file contents)) (links : Nat)
    (here : Location) (parts : List String) :
    Bereft place (t.followLinks true links here parts)
      ((t.without place).followLinks true links here parts) := by
  induction links generalizing here parts with
  | zero => exact bereft_of_expansion hfile (fun _ _ => .same (by simp [expansion])) here parts
  | succ links ih =>
    refine bereft_of_expansion hfile ?_ here parts
    exact ih

theorem bereft_resolve (hfile : t.entryAt? place = some (.file contents)) (p : Path) :
    Bereft place (t.resolve p true) ((t.without place).resolve p true) := by
  rcases refused_or_text p with ⟨fault, -, hrefused⟩ | hplain
  · rw [hrefused, hrefused]
    exact .same (by simp)
  · rw [resolve_of_text hplain, resolve_of_text hplain]
    exact bereft_followLinks hfile linkLimit (t.start p) p.pieces

/-- A path that led to a directory leads to it still. -/
theorem resolve_without_directory (hfile : t.entryAt? place = some (.file contents)) {p : Path}
    {location : Location} (h : t.resolve p true = .ok (location, .directory)) :
    (t.without place).resolve p true = .ok (location, .directory) := by
  have hbereft := bereft_resolve hfile p
  have hentry := entryAt?_of_resolve h
  rw [h] at hbereft
  generalize (t.without place).resolve p true = result at hbereft ⊢
  cases hbereft with
  | found => cases hentry.symm.trans hfile
  | same => rfl

/-- What a path leads to without the file it led to before. -/
theorem resolve_of_resolve_without (hfile : t.entryAt? place = some (.file contents)) {p : Path}
    {found : Found} (h : (t.without place).resolve p true = .ok found) :
    t.resolve p true = .ok found := by
  have hbereft := bereft_resolve hfile p
  rw [h] at hbereft
  generalize t.resolve p true = result at hbereft ⊢
  cases hbereft with
  | same => rfl

/-- A path that led neither to the file nor through one leads to the same. -/
theorem resolve_without (hfile : t.entryAt? place = some (.file contents)) {p : Path}
    (hfound : ∀ entry, t.resolve p true ≠ .ok (place, entry))
    (hthrough : t.resolve p true ≠ .error .notADirectory) :
    (t.without place).resolve p true = t.resolve p true := by
  have hbereft := bereft_resolve hfile p
  generalize (t.without place).resolve p true = result at hbereft ⊢
  generalize t.resolve p true = before at hbereft hfound hthrough ⊢
  cases hbereft with
  | found entry => exact absurd rfl (hfound entry)
  | through => exact absurd rfl hthrough
  | same => rfl

/-! ## Walking -/

/-- Lists that each start with their own name are all different when the names are. -/
theorem nodup_flatMap_of_head? {α : Type} {names : List α} {below : α → List (List α)}
    (hnames : names.Nodup) (hbelow : ∀ name ∈ names, (below name).Nodup)
    (hhead : ∀ name, ∀ inner ∈ below name, inner.head? = some name) :
    (names.flatMap below).Nodup := by
  refine List.nodup_flatMap.2 ⟨hbelow, hnames.imp fun hne inner hin hother => ?_⟩
  exact hne (Option.some.inj ((hhead _ inner hin).symm.trans (hhead _ inner hother)))

/-- A walk meets no names twice. -/
theorem nodup_walk (levels : Nat) (location : Location) :
    ((t.walk levels location).map Prod.fst).Nodup := by
  induction levels generalizing location with
  | zero => exact .nil
  | succ levels ih =>
    rw [walk, List.map_flatMap]
    refine nodup_flatMap_of_head? (nodup_eraseDups _) (fun name _ => ?_) fun name names hin => ?_
    · cases t.entryAt? (location ++ [name]) with
      | none => exact .nil
      | some entry =>
        cases entry with
        | directory =>
          have hcons := (ih (location ++ [name])).map (List.cons_injective (a := name))
          rwa [List.map_map] at hcons ⊢
        | file contents => exact List.nodup_singleton _
        | link target => exact List.nodup_singleton _
    · obtain ⟨⟨_, entry⟩, hmem, rfl⟩ := List.mem_map.1 hin
      split at hmem
      next => cases hmem
      next =>
        obtain ⟨below, -, hbelow⟩ := List.mem_map.1 hmem
        rw [← hbelow]
        rfl
      next => rw [List.mem_singleton.1 hmem, List.head?_cons]

/-- A walk meets the same but for the file, in the same order. -/
theorem walk_without (hfile : t.entryAt? place = some (.file contents)) (levels : Nat)
    (location : Location) :
    (t.without place).walk levels location =
      (t.walk levels location).filter fun leaf => location ++ leaf.1 ≠ place := by
  induction levels generalizing location with
  | zero => rfl
  | succ levels ih =>
    rw [walk, walk, names_without, List.filter_flatMap]
    -- what each name adds is compared, the name of the file adding nothing
    induction t.names location with
    | nil => rfl
    | cons name rest ihrest =>
      rw [List.flatMap_cons, ← ihrest]
      by_cases hname : location ++ [name] = place
      · rw [List.filter_cons_of_neg (by simpa using hname), hname, hfile]
        simp [hname]
      · rw [List.filter_cons_of_pos (by simpa using hname), List.flatMap_cons,
          entryAt?_without hfile, if_neg hname]
        refine congrArg (· ++ _) ?_
        cases t.entryAt? (location ++ [name]) with
        | none => rfl
        | some entry =>
          cases entry with
          | directory =>
            dsimp only
            rw [ih, List.filter_map]
            refine congrArg (List.map _) (List.filter_congr fun leaf _ => ?_)
            simp
          | file contents => simp [hname]
          | link target => simp [hname]

/-- The regular files below a directory are the same but for the file, in the same order. -/
theorem filesBelow_without (hfile : t.entryAt? place = some (.file contents))
    (location : Location) :
    (t.without place).filesBelow location =
      (t.filesBelow location).filter fun file => location ++ file.1 ≠ place := by
  have hleaves : (t.without place).leavesBelow location =
      (t.leavesBelow location).filter fun leaf => location ++ leaf.1 ≠ place := by
    rw [← walk_depth_add location t.depth, ← walk_depth_add location (t.without place).depth,
      walk_without hfile, Nat.add_comm]
  rw [filesBelow, hleaves, filesBelow, List.filterMap_filter, List.filter_filterMap]
  refine List.filterMap_congr fun leaf _ => ?_
  obtain ⟨names, entry⟩ := leaf
  cases entry with
  | directory => simp
  | link target => simp
  | file contents => by_cases hname : location ++ names = place <;> simp [hname, Option.filter]

/-- No regular file below a directory is met twice. -/
theorem nodup_filesBelow (location : Location) :
    ((t.filesBelow location).map Prod.fst).Nodup := by
  have hsub : ((t.filesBelow location).map Prod.fst).Sublist
      ((t.leavesBelow location).map Prod.fst) := by
    rw [filesBelow]
    induction t.leavesBelow location with
    | nil => exact .slnil
    | cons leaf rest ih =>
      obtain ⟨names, entry⟩ := leaf
      cases entry with
      | file contents => exact ih.cons_cons names
      | directory => exact ih.cons names
      | link target => exact ih.cons names
  exact (nodup_walk t.depth location).sublist hsub

end FileTree

end WorktreeTracker
