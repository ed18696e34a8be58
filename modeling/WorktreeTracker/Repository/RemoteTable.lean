import WorktreeTracker.GitConfig
import WorktreeTracker.Repository.RefDatabase

/-!
# Remotes of a repository

The remotes in the configuration of an opened repository and the references they fetch into. A
remote-tracking branch belongs to the one remote whose fetch settings can write it.
-/

namespace WorktreeTracker

namespace RemoteTable

/-! ## Refspecs -/

/-- The local side of a setting that tells what to fetch. -/
structure FetchSpec where
  /-- The pattern of the references that are written; none when nothing is written. -/
  destination : Option String
deriving DecidableEq, Repr

/-- Whether one side of a setting is a name that may be fetched. -/
def isRefspecName (isPattern : Bool) (name : String) : Bool :=
  name.isEmpty || (RefDatabase.segments? ⟨isPattern, true⟩ name).isSome

/-- The parts of a text before and after its last colon. -/
def cutLastColon? (s : String) : Option (String × String) :=
  (Text.cutChars? ':' s.toList.reverse).map fun (right, left) =>
    (String.ofList left.reverse, String.ofList right.reverse)

/-- The full form of a destination: a name outside `refs/` is below `refs/` for a remote and below
`refs/heads/` otherwise. -/
def fullDestination (destination : String) : String :=
  if Text.startsWith "refs/" destination then destination
  else if Text.startsWith "remotes/" destination then "refs/" ++ destination
  else "refs/heads/" ++ destination

/-- The meaning of a fetch setting. A star must stand on both sides or on neither. -/
def parseFetch? (setting : String) : Option FetchSpec := do
  let body := (Text.after? "+" setting).getD setting
  let (source, destination) := match cutLastColon? body with
    | some (left, right) => (left, some right)
    | none => (body, none)
  let destination := destination.filter (!·.isEmpty)
  let isPattern := source.toList.contains '*'
  match cutLastColon? body with
  | some _ => guard (isPattern = (destination.getD "").toList.contains '*')
  | none => guard (!isPattern)
  guard (isRefspecName isPattern source)
  guard (isRefspecName isPattern (destination.getD ""))
  return ⟨destination.map fullDestination⟩

/-- What is left of a list after each number of its elements, from none to all. -/
def suffixes : List Char → List (List Char)
  | [] => [[]]
  | c :: cs => (c :: cs) :: suffixes cs

/-- Whether a name matches a pattern in which a star stands for any characters. -/
def matchesPattern : (pattern name : List Char) → Bool
  | [], name => name.isEmpty
  | '*' :: pattern, name => (suffixes name).any (matchesPattern pattern)
  | p :: pattern, c :: name => p = c && matchesPattern pattern name
  | _ :: _, [] => false

/-- Whether a fetch setting can write the reference `name`. -/
def FetchSpec.canWrite (spec : FetchSpec) (name : String) : Bool :=
  spec.destination.any fun pattern => matchesPattern pattern.toList name.toList

/-! ## Remotes -/

/-- Whether a remote may have the given name: its references have acceptable names. -/
def isRemoteName (name : String) : Bool :=
  !name.isEmpty && isRefspecName false s!"refs/remotes/{name}/test"

/-- The remote between `remote.` and the last dot of the key of an address. -/
def remoteOfKey? (key : List Char) : Option (List Char) := do
  let rest ← Text.charsAfter? (Text.encode "remote.") key
  let ending := ((Text.charsAfter? (Text.encode ".url").reverse rest.reverse).or
    (Text.charsAfter? (Text.encode ".pushurl").reverse rest.reverse))
  return (← ending).reverse

/-- The names of the remotes with an address, each once, by increasing name. -/
def names (settings : List GitConfig.Setting) : List (List Char) :=
  (OrderedMap.ofList ((settings.filterMap fun s => remoteOfKey? s.key).map (·, ()))).keys

/-- The values set for a variable, in order. -/
def valuesOf (settings : List GitConfig.Setting) (key : String) : List (List Char) :=
  let key := Text.encode key
  (settings.filter fun s => s.key = key).map fun s => s.value.getD []

/-- The replacements of the start of an address: what is replaced and by what. -/
def replacements (settings : List GitConfig.Setting) : List (List Char × List Char) :=
  settings.filterMap fun s => do
    let rest ← Text.charsAfter? (Text.encode "url.") s.key
    let base ← Text.charsAfter? (Text.encode ".insteadof").reverse rest.reverse
    return (s.value.getD [], base.reverse)

/-- The address with the longest of its starts that is to be replaced, replaced. -/
def replaceStart (settings : List GitConfig.Setting) (url : List Char) : List Char :=
  let found := (replacements settings).filter fun e =>
    !e.1.isEmpty && (Text.charsAfter? e.1 url).isSome
  let longest := found.foldl (fun best e => match best with
    | some b => if b.1.length < e.1.length then some e else some b
    | none => some e) (none : Option (List Char × List Char))
  match longest with
  | some (start, base) => base ++ url.drop start.length
  | none => url

/-- A remote as looked up by its name. -/
structure LookedUp where
  /-- The address to fetch from as bytes, empty when only one to push to is set. -/
  url : List Char
  /-- What is fetched. -/
  fetches : List FetchSpec
deriving DecidableEq

/-- The remote of the given name. -/
def lookup (settings : List GitConfig.Setting) (name : String) : Except LookupFailure LookedUp := do
  unless isRemoteName name do throw .invalidSpec
  let url := (valuesOf settings s!"remote.{name}.url").getLast?
  let pushUrl := (valuesOf settings s!"remote.{name}.pushurl").getLast?
  if url.isNone && pushUrl.isNone then throw .notFound
  let fetches ← (valuesOf settings s!"remote.{name}.fetch").mapM fun setting =>
    match (Text.decode? setting).bind parseFetch? with
    | some spec => .ok spec
    | none => .error LookupFailure.invalidSpec
  return ⟨replaceStart settings (url.getD []), fetches⟩

/-- The one remote that can write the reference `name`. -/
def owner? (settings : List GitConfig.Setting) (name : String) : Option String :=
  let owners := ((names settings).filterMap Text.decode?).filter fun remote =>
    match lookup settings remote with
    | .ok r => r.fetches.any fun spec => spec.canWrite name
    | .error _ => false
  match owners with
  | [owner] => some owner
  | _ => none

end RemoteTable

end WorktreeTracker
