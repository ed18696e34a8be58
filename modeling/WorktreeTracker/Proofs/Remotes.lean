import Mathlib.Data.List.Induction
import WorktreeTracker.PlainReader
import WorktreeTracker.Proofs.OrderedMap
import WorktreeTracker.Proofs.Repository.Listing
import WorktreeTracker.Repository.Reader

/-!
# Remotes of a configuration

The remotes that the two readers find in one configuration. Both find the same names. The plain
reader gives a remote all of its addresses, in order, and the repository reader is answered with the
last one, rewritten by the settings for the start of addresses.
-/

namespace WorktreeTracker

namespace PlainReader

/-! ## Addresses of the plain reader -/

/-- The addresses that entries give to a remote, in order. -/
def addresses (entries : List (String × Option String)) (name : String) : List String :=
  (entries.filter fun e => e.1 = name).filterMap Prod.snd

/-- One more address goes to the remote of the name, which is new when there is none. -/
theorem find?_addUrl (name : String) (url : Option String) (remotes : List Remote)
    (other : String) :
    (addUrl name url remotes).find? (fun e => e.name = other) =
      if other = name then
        some ⟨name, ((remotes.find? fun e => e.name = name).map Remote.urls).getD [] ++ url.toList⟩
      else remotes.find? fun e => e.name = other := by
  induction remotes with
  | nil =>
    by_cases h : other = name
    · simp [addUrl, h]
    · simp [addUrl, h, Ne.symm h]
  | cons first rest ih =>
    rw [addUrl]
    by_cases hfirst : first.name = name
    · subst hfirst
      by_cases h : other = first.name
      · simp [h]
      · simp [h, Ne.symm h]
    · rw [if_neg hfirst, List.find?_cons, List.find?_cons, List.find?_cons]
      by_cases h : other = name
      · subst h
        simp [hfirst, ih]
      · by_cases hother : first.name = other
        · simp [hother, h]
        · simp [hother, ih, h]

theorem nodup_addUrl {name : String} {url : Option String} {remotes : List Remote}
    (h : (remotes.map Remote.name).Nodup) : ((addUrl name url remotes).map Remote.name).Nodup := by
  have hnames : (addUrl name url remotes).map Remote.name =
      if name ∈ remotes.map Remote.name then remotes.map Remote.name
      else remotes.map Remote.name ++ [name] := by
    clear h
    induction remotes with
    | nil => simp [addUrl]
    | cons first rest ih =>
      rw [addUrl]
      by_cases hfirst : first.name = name
      · simp [hfirst]
      · rw [if_neg hfirst, List.map_cons, ih]
        by_cases hmem : name ∈ rest.map Remote.name
        · simp [hmem]
        · simp [hmem, Ne.symm hfirst]
  rw [hnames]
  split
  next => exact h
  next hnew => exact List.nodup_append.2 ⟨h, by simp, by simpa using hnew⟩

/-- The remotes after some entries: each name once, with the addresses that the entries give it. -/
theorem foldl_addUrl (entries : List (String × Option String)) :
    let remotes := entries.foldl (fun remotes e => addUrl e.1 e.2 remotes) []
    (remotes.map Remote.name).Nodup ∧ ∀ name, (remotes.find? fun e => e.name = name) =
      if name ∈ entries.map Prod.fst then some ⟨name, addresses entries name⟩ else none := by
  induction entries using List.reverseRecOn with
  | nil => exact ⟨List.nodup_nil, fun name => rfl⟩
  | append_singleton entries entry ih =>
    obtain ⟨hnodup, hfind⟩ := ih
    rw [List.foldl_append]
    refine ⟨nodup_addUrl hnodup, fun name => ?_⟩
    simp only [List.foldl_cons, List.foldl_nil, find?_addUrl, hfind]
    have hlast : addresses (entries ++ [entry]) name =
        addresses entries name ++ if entry.1 = name then entry.2.toList else [] := by
      unfold addresses
      by_cases h : entry.1 = name
      · cases hurl : entry.2 <;> simp [h, hurl]
      · simp [h]
    rw [hlast]
    by_cases hname : name = entry.1
    · subst hname
      by_cases hmem : entry.1 ∈ entries.map Prod.fst
      · simp [hmem]
      · have hnone : addresses entries entry.1 = [] := by
          have hfilter : (entries.filter fun e => e.1 = entry.1) = [] := by
            rw [List.filter_eq_nil_iff]
            exact fun e he heq => hmem (List.mem_map.2 ⟨e, he, of_decide_eq_true heq⟩)
          rw [addresses, hfilter, List.filterMap_nil]
        simp [hmem, hnone]
    · have hmem : name ∈ (entries ++ [entry]).map Prod.fst ↔ name ∈ entries.map Prod.fst := by
        rw [List.map_append, List.mem_append, List.map_singleton, List.mem_singleton]
        exact or_iff_left hname
      simp only [hname, Ne.symm hname, if_false, List.append_nil, hmem]

/-- A remote is configured with the addresses that the variables set for its name. -/
theorem mem_remotesOf_iff {settings : List GitConfig.Setting} {e : Remote} :
    e ∈ remotesOf settings ↔
      e.name ∈ (settings.filterMap remoteSetting?).map Prod.fst ∧
        e.urls = addresses (settings.filterMap remoteSetting?) e.name := by
  obtain ⟨hnodup, hfind⟩ := foldl_addUrl (settings.filterMap remoteSetting?)
  have hmem : e ∈ remotesOf settings ↔
      ((remotesOf settings).find? fun other => other.name = e.name) = some e := by
    constructor
    · intro hmem
      have hsome : ((remotesOf settings).find? fun other => other.name = e.name).isSome :=
        List.find?_isSome.2 ⟨e, hmem, by simp⟩
      obtain ⟨found, hfound⟩ := Option.isSome_iff_exists.1 hsome
      have hname : found.name = e.name := by simpa using List.find?_some hfound
      rw [hfound, List.inj_on_of_nodup_map hnodup (List.mem_of_find?_eq_some hfound) hmem hname]
    · exact List.mem_of_find?_eq_some
  rw [hmem, remotesOf, hfind]
  obtain ⟨name, urls⟩ := e
  split
  next h => simp [h, eq_comm]
  next h => simp [h]

end PlainReader

/-! ## Names of remotes -/

/-- No variable ends both as an address to fetch from and as one to push to. -/
theorem append_url_ne (front back : List Char) :
    front ++ Text.encode ".url" ≠ back ++ Text.encode ".pushurl" := by
  have hurl : Text.encode ".url" = [] ++ ['.'] ++ ".url".toList.tail := by decide
  have hpush : Text.encode ".pushurl" = ".pus".toList ++ ['h'] ++ ".url".toList.tail := by decide
  rw [hurl, hpush]
  intro h
  simp only [← List.append_assoc, List.append_cancel_right_eq] at h
  simpa using congrArg List.getLast? h

/-- A variable belongs to the remote whose name stands in its middle, unless that is empty. -/
theorem remoteOf?_eq_some_iff {field ending : String} (hending : s!".{field}" = ending)
    {key k : List Char} : GitConfig.remoteOf? field key = some k ↔
      k ≠ [] ∧ key = Text.encode "remote." ++ (k ++ Text.encode ending) := by
  unfold GitConfig.remoteOf?
  rw [hending, Option.bind_eq_bind, Option.bind_eq_some_iff]
  constructor
  · rintro ⟨rest, hrest, h⟩
    obtain ⟨name, hname, h⟩ := Option.bind_eq_some_iff.1 h
    obtain ⟨⟨⟩, hne, h⟩ := Option.bind_eq_some_iff.1 h
    obtain rfl := Option.some.inj h
    rw [← List.reverse_reverse name, Text.charsAfter?_reverse_eq_some_iff] at hname
    rw [Text.charsAfter?_eq_some_iff.1 hrest, hname]
    refine ⟨fun hnil => ?_, rfl⟩
    simp [List.reverse_eq_nil_iff.1 hnil, guard] at hne
  · rintro ⟨hne, rfl⟩
    refine ⟨k ++ Text.encode ending, Text.charsAfter?_eq_some_iff.2 rfl, ?_⟩
    rw [Option.bind_eq_bind, Text.charsAfter?_reverse_eq_some_iff.2 rfl, Option.bind_some]
    simp [hne, guard]

/-- A variable for an address belongs to the remote whose name stands in its middle. -/
theorem remoteOfKey?_eq_some_iff {key k : List Char} :
    RemoteTable.remoteOfKey? key = some k ↔
      key = Text.encode "remote." ++ (k ++ Text.encode ".url") ∨
        key = Text.encode "remote." ++ (k ++ Text.encode ".pushurl") := by
  unfold RemoteTable.remoteOfKey?
  rw [Option.bind_eq_bind, Option.bind_eq_some_iff]
  constructor
  · rintro ⟨rest, hrest, h⟩
    obtain ⟨name, hname, h⟩ := Option.bind_eq_some_iff.1 h
    obtain rfl := Option.some.inj h
    rw [Text.charsAfter?_eq_some_iff.1 hrest]
    rw [Option.or_eq_some_iff, ← List.reverse_reverse name, Text.charsAfter?_reverse_eq_some_iff,
      Text.charsAfter?_reverse_eq_some_iff] at hname
    rcases hname with rfl | ⟨-, rfl⟩
    · exact .inl rfl
    · exact .inr rfl
  · rintro (rfl | rfl)
    · refine ⟨_, Text.charsAfter?_eq_some_iff.2 rfl, ?_⟩
      rw [Text.charsAfter?_reverse_eq_some_iff.2 rfl, Option.some_or]
      exact congrArg some (List.reverse_reverse k)
    · refine ⟨_, Text.charsAfter?_eq_some_iff.2 rfl, ?_⟩
      have hurl : Text.charsAfter? (Text.encode ".url").reverse
          (k ++ Text.encode ".pushurl").reverse = none := by
        refine Option.eq_none_iff_forall_ne_some.2 fun front hfront => ?_
        rw [← List.reverse_reverse front, Text.charsAfter?_reverse_eq_some_iff] at hfront
        exact append_url_ne _ _ hfront.symm
      rw [hurl, Text.charsAfter?_reverse_eq_some_iff.2 rfl, Option.none_or]
      exact congrArg some (List.reverse_reverse k)

/-- A variable gives a remote with a name an address to fetch from, or none when it has one to push
to. -/
theorem remoteSetting?_eq_some_iff {setting : GitConfig.Setting} {name : String}
    {url : Option String} :
    PlainReader.remoteSetting? setting = some (name, url) ↔
      ∃ k, k ≠ [] ∧ Text.decode? k = some name ∧
        (setting.key = Text.encode "remote." ++ (k ++ Text.encode ".url") ∧
            url = setting.value.bind Text.decode? ∨
          setting.key = Text.encode "remote." ++ (k ++ Text.encode ".pushurl") ∧ url = none) := by
  have hfetch {k : List Char} : GitConfig.remoteOf? "url" setting.key = some k ↔
      k ≠ [] ∧ setting.key = Text.encode "remote." ++ (k ++ Text.encode ".url") :=
    remoteOf?_eq_some_iff (by decide)
  have hpush {k : List Char} : GitConfig.remoteOf? "pushurl" setting.key = some k ↔
      k ≠ [] ∧ setting.key = Text.encode "remote." ++ (k ++ Text.encode ".pushurl") :=
    remoteOf?_eq_some_iff (by decide)
  unfold PlainReader.remoteSetting?
  cases hurl : GitConfig.remoteOf? "url" setting.key with
  | some k =>
    obtain ⟨hne, hkey⟩ := hfetch.1 hurl
    simp only [Option.map_eq_some_iff, Prod.mk.injEq]
    constructor
    · rintro ⟨_, hname, rfl, rfl⟩
      exact ⟨k, hne, hname, .inl ⟨hkey, rfl⟩⟩
    · rintro ⟨other, -, hname, ⟨hother, rfl⟩ | ⟨hother, -⟩⟩
      · rw [hkey, List.append_cancel_left_eq, List.append_cancel_right_eq] at hother
        exact ⟨name, hother ▸ hname, rfl, rfl⟩
      · rw [hkey, List.append_cancel_left_eq] at hother
        exact absurd hother (append_url_ne _ _)
  | none =>
    simp only [Option.bind_eq_bind, Option.bind_eq_some_iff]
    constructor
    · rintro ⟨k, hk, _, hname, heq⟩
      obtain ⟨rfl, rfl⟩ := Prod.mk.inj (Option.some.inj heq)
      obtain ⟨hne, hkey⟩ := hpush.1 hk
      exact ⟨k, hne, hname, .inr ⟨hkey, rfl⟩⟩
    · rintro ⟨k, hne, hname, ⟨hkey, -⟩ | ⟨hkey, rfl⟩⟩
      · cases hurl.symm.trans (hfetch.2 ⟨hne, hkey⟩)
      · exact ⟨k, hpush.2 ⟨hne, hkey⟩, name, hname, rfl⟩

/-- Variables for addresses give both readers the same names, unless one is empty. -/
theorem mem_names_remotesOf_iff {settings : List GitConfig.Setting} {name : String} :
    name ∈ (PlainReader.remotesOf settings).map Remote.name ↔
      ∃ k ∈ RemoteTable.names settings, k ≠ [] ∧ Text.decode? k = some name := by
  have hnames {k : List Char} : k ∈ RemoteTable.names settings ↔
      ∃ setting ∈ settings, RemoteTable.remoteOfKey? setting.key = some k := by
    rw [RemoteTable.names, OrderedMap.mem_keys_ofList, List.map_map, List.mem_map]
    simp [List.mem_filterMap]
  rw [List.mem_map]
  simp only [PlainReader.mem_remotesOf_iff, hnames]
  constructor
  · rintro ⟨e, ⟨hname, -⟩, rfl⟩
    obtain ⟨⟨name, url⟩, hmem, hname⟩ := List.mem_map.1 hname
    obtain ⟨setting, hsetting, h⟩ := List.mem_filterMap.1 hmem
    obtain ⟨k, hne, hk, hkey⟩ := remoteSetting?_eq_some_iff.1 h
    exact ⟨k, ⟨setting, hsetting, remoteOfKey?_eq_some_iff.2 (hkey.imp And.left And.left)⟩, hne,
      hname ▸ hk⟩
  · rintro ⟨k, ⟨setting, hsetting, hkey⟩, hne, hname⟩
    refine ⟨⟨name, PlainReader.addresses _ name⟩, ⟨?_, rfl⟩, rfl⟩
    have hsome : ∃ url, PlainReader.remoteSetting? setting = some (name, url) := by
      rcases remoteOfKey?_eq_some_iff.1 hkey with hkey | hkey
      · exact ⟨_, remoteSetting?_eq_some_iff.2 ⟨k, hne, hname, .inl ⟨hkey, rfl⟩⟩⟩
      · exact ⟨_, remoteSetting?_eq_some_iff.2 ⟨k, hne, hname, .inr ⟨hkey, rfl⟩⟩⟩
    obtain ⟨url, hurl⟩ := hsome
    exact List.mem_map.2 ⟨_, List.mem_filterMap.2 ⟨setting, hsetting, hurl⟩, rfl⟩

/-! ## Remotes that a configuration answers -/

namespace RepositoryReader

variable {settings : List GitConfig.Setting}

/-- The addresses that an opened repository gives to a remote: the last one to fetch from,
rewritten, or an empty one when there are only ones to push to. -/
def addresses (settings : List GitConfig.Setting) (name : String) : List String :=
  (Text.decode? (RemoteTable.replaceStart settings
    ((RemoteTable.valuesOf settings s!"remote.{name}.url").getLast?.getD []))).toList

/-- A remote that is looked up has an acceptable name and its one address. -/
theorem lookup_eq_ok {name : String} {found : RemoteTable.LookedUp}
    (h : RemoteTable.lookup settings name = .ok found) :
    RemoteTable.isRemoteName name = true ∧
      (Text.decode? found.url).toList = addresses settings name := by
  unfold RemoteTable.lookup at h
  dsimp only at h
  split at h
  next hname =>
    split at h
    next => cases h
    next =>
      obtain ⟨fetches, -, h⟩ := bind_eq_ok.1 h
      obtain rfl := Except.ok.inj h
      exact ⟨hname, rfl⟩
  next => cases h

/-- The owner of a reference is a remote that the plain reader finds too. -/
theorem owner?_eq_some {name owner : String}
    (h : RemoteTable.owner? settings name = some owner) :
    owner ∈ (PlainReader.remotesOf settings).map Remote.name := by
  unfold RemoteTable.owner? at h
  dsimp only at h
  split at h
  next other howners =>
    obtain rfl := Option.some.inj h
    obtain ⟨hmem, hwrites⟩ := List.mem_filter.1 (howners ▸ List.mem_singleton.2 rfl)
    obtain ⟨k, hk, hdecode⟩ := List.mem_filterMap.1 hmem
    refine mem_names_remotesOf_iff.2 ⟨k, hk, ?_, hdecode⟩
    rintro rfl
    obtain rfl : other = "" := Option.some.inj (hdecode.symm.trans (by decide))
    cases hwrites
  next => cases h

/-- A remote with an answer has a name, and the answer is its one address. -/
theorem url_eq_ok {name : String} {url : Option String} (h : (answers settings).url name = .ok url) :
    name ≠ "" ∧ url.toList = addresses settings name := by
  obtain ⟨found, hfound, rfl⟩ := map_eq_ok.1 h
  obtain ⟨hname, hurls⟩ := lookup_eq_ok hfound
  refine ⟨?_, hurls⟩
  rintro rfl
  cases hname

/-- The configuration answers with the remotes that the plain reader finds exactly when each has the
one address that is left of its own: it answers with the same names. -/
theorem gives_iff {remotes : List Remote} (h : (answers settings).remotes = .ok remotes) :
    (answers settings).Gives (PlainReader.remotesOf settings) ↔
      ∀ e ∈ PlainReader.remotesOf settings, e.urls = addresses settings e.name := by
  obtain ⟨names, hnames, hnamed, -⟩ := GitRemotes.mem_remotes_iff h
  obtain rfl := Except.ok.inj hnames
  have hsame (name : String) : some name ∈ (RemoteTable.names settings).map Text.decode? ↔
      name ∈ (PlainReader.remotesOf settings).map Remote.name := by
    rw [mem_names_remotesOf_iff]
    constructor
    · intro hname
      obtain ⟨url, hurl⟩ := hnamed name hname
      obtain ⟨k, hk, hdecode⟩ := List.mem_map.1 hname
      refine ⟨k, hk, ?_, hdecode⟩
      rintro rfl
      exact (url_eq_ok hurl).1 (Option.some.inj (hdecode.symm.trans (by decide)))
    · rintro ⟨k, hk, -, hdecode⟩
      exact List.mem_map.2 ⟨k, hk, hdecode⟩
  constructor
  · intro hgives e he
    obtain ⟨url, hurl, heq⟩ := hgives.urls e he
    exact heq.trans (url_eq_ok hurl).2
  · intro hurls
    refine ⟨fun others hothers name => ?_, fun e he => ?_⟩
    · obtain rfl := Except.ok.inj hothers
      exact hsame name
    · obtain ⟨url, hurl⟩ := hnamed e.name ((hsame _).2 (List.mem_map_of_mem he))
      exact ⟨url, hurl, (hurls e he).trans (url_eq_ok hurl).2.symm⟩

end RepositoryReader

end WorktreeTracker
