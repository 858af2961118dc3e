import Sentry.Library.VolatileKeys
import Sentry.Similarity.IndexContents

/-!
# Expiry of the keys of the index

The commands of the script on keys that expire. A set for an interval is set to expire where a
member is added to it, and a hash where it is written; Redis keeps times in milliseconds and removes
a key that has expired before the next command. An error ends the script, and what it has written
stays.
-/

namespace Sentry.Similarity.ExpiringKeys

open Library (Occurrence VolatileKey)

/-- The keys of Redis, with the times at which they expire. -/
@[ext] structure VolatileStore where
  hashes : List Char → VolatileKey (List Char × ℤ)
  sets : List Char → VolatileKey Label

/-- What can be read from the keys. -/
def VolatileStore.items (s : VolatileStore) : Store :=
  ⟨fun key ↦ (s.hashes key).items, fun key ↦ (s.sets key).items⟩

variable (config : IndexConfig) (now : ℤ)

/-- `SADD`, with the number of members that were added. -/
def sadd (member : Label) (set : VolatileKey Label) : ℕ × VolatileKey Label :=
  if member ∈ set.items then (0, set) else (1, set.write (set.items ++ [member]))

/-- `SREM`, with the number of members that were removed. -/
def srem (member : Label) (set : VolatileKey Label) : ℕ × VolatileKey Label :=
  if member ∈ set.items then (1, set.write (Similarity.srem member set.items)) else (0, set)

/-- `EXPIREAT`, with a time in seconds. -/
def expireat {α : Type} (time : ℤ) (key : VolatileKey α) : VolatileKey α :=
  key.expireAt now (time * 1000)

/-- `EXPIRE`, with seconds from now. -/
def expire {α : Type} (seconds : ℤ) (key : VolatileKey α) : VolatileKey α :=
  key.expireAt now (now + seconds * 1000)

/-- `TTL`, rounded to seconds. -/
def ttl {α : Type} (key : VolatileKey α) : ℤ :=
  if key.items = [] then -2
  else match key.expiry with
    | none => -1
    | some time => (max (time - now) 0 + 500) / 1000

def hincrby (hash : VolatileKey (List Char × ℤ)) (field : List Char) (count : ℤ) :
    VolatileKey (List Char × ℤ) := hash.write (Similarity.hincrby hash.items field count)

def endOfRetention (index : ℤ) : ℤ := (index + 1 + config.retention) * config.interval

def modifySet (f : VolatileKey Label → VolatileKey Label)
    (sets : List Char → VolatileKey Label) (key : List Char) : List Char → VolatileKey Label :=
  Function.update sets key (f (sets key))

/-- What `add` does with the set of an interval. -/
def addMember (index : ℤ) (member : Label) (set : VolatileKey Label) : VolatileKey Label :=
  let result := sadd member set
  if result.1 > 0 then expireat now (endOfRetention config index) result.2 else result.2

/-- What `swap` does with the set of an interval. -/
def swapMember (index : ℤ) (old new : Label) (set : VolatileKey Label) : VolatileKey Label :=
  let removed := srem old set
  if removed.1 > 0 then
    let added := sadd new removed.2
    if added.1 > 0 then expireat now (endOfRetention config index) added.2 else added.2
  else removed.2

/-- What `import` does with the set of an interval. -/
def importMember (index : ℤ) (member : Label) (set : VolatileKey Label) : VolatileKey Label :=
  let result := sadd member set
  if result.1 > 1 then expireat now (endOfRetention config index) result.2 else result.2

def TimeSeriesSet.add (keyFunction : ℤ → List Char) (timestamp : ℤ)
    (sets : List Char → VolatileKey Label) (member : Label) : List Char → VolatileKey Label :=
  let index := currentIndex config timestamp
  modifySet (addMember config now index member) sets (keyFunction index)

def TimeSeriesSet.remove (keyFunction : ℤ → List Char) (timestamp : ℤ)
    (sets : List Char → VolatileKey Label) (member : Label) : List Char → VolatileKey Label :=
  (window config timestamp).foldl
    (fun sets index ↦ modifySet (fun set ↦ (srem member set).2) sets (keyFunction index)) sets

def TimeSeriesSet.swap (keyFunction : ℤ → List Char) (timestamp : ℤ)
    (sets : List Char → VolatileKey Label) (old new : Label) : List Char → VolatileKey Label :=
  (window config timestamp).foldl (fun sets index ↦
    modifySet (swapMember config now index old new) sets (keyFunction index)) sets

def TimeSeriesSet.importMember (keyFunction : ℤ → List Char) (sets : List Char → VolatileKey Label)
    (member : Label) (data : List ℤ) : List Char → VolatileKey Label :=
  data.foldl (fun sets index ↦
    modifySet (ExpiringKeys.importMember config now index member) sets (keyFunction index)) sets

def setFrequencies (timestamp : ℤ) (s : VolatileStore) (scope index item : Label)
    (frequencies : Frequencies) (expiration : Option ℤ) : VolatileStore :=
  let expiration := expiration.getD (timestamp + config.interval * config.retention)
  let key := getFrequencyKey config scope index item
  let written := (eachBucket frequencies).foldl (fun hash bucket ↦
    hincrby hash (packFrequencyCoordinate bucket.1 bucket.2.1) bucket.2.2) (s.hashes key)
  { s with hashes := Function.update s.hashes key (expireat now expiration written) }

def mergeFrequencies (s : VolatileStore) (scope index source destination : Label) :
    Except VolatileStore VolatileStore :=
  let sourceKey := getFrequencyKey config scope index source
  let destinationKey := getFrequencyKey config scope index destination
  let response := (s.hashes sourceKey).items
  if response = [] then .ok s
  else
    let merged := Function.update s.hashes destinationKey (response.foldl
      (fun hash field ↦ hincrby hash field.1 field.2) (s.hashes destinationKey))
    let sourceTtl := ttl now (merged sourceKey)
    if 0 ≤ sourceTtl then
      let expiring := Function.update merged destinationKey (expire now
        (max sourceTtl (ttl now (merged destinationKey))) (merged destinationKey))
      .ok { s with hashes := Function.update expiring sourceKey ∅ }
    else .error { s with hashes := merged }

def clearFrequencies (s : VolatileStore) (scope index item : Label) : VolatileStore :=
  { s with hashes := Function.update s.hashes (getFrequencyKey config scope index item) ∅ }

def lastStore : Except VolatileStore VolatileStore → VolatileStore
  | .ok s | .error s => s

def recordSignature (timestamp : ℤ) (scope key : Label) (s : VolatileStore)
    (signature : Signature config) : VolatileStore :=
  let recorded := setFrequencies config now timestamp s scope signature.index key
    signature.frequencies none
  { recorded with
    sets := (eachBucket signature.frequencies).foldl (fun sets bucket ↦
      TimeSeriesSet.add config now (getBucketMembershipKey config scope signature.index
        (packFrequencyCoordinate bucket.1 bucket.2.1)) timestamp sets key) recorded.sets }

def record (timestamp : ℤ) (scope key : Label) (signatures : List (Signature config))
    (s : VolatileStore) : VolatileStore :=
  signatures.foldl (recordSignature config now timestamp scope key) s

def mergeSource (timestamp : ℤ) (scope destination : Label) (s : VolatileStore)
    (source : Label × Label) : Except VolatileStore VolatileStore :=
  match getFrequencies config s.items scope source.1 source.2 with
  | none => .error s
  | some frequencies => do
    let merged ← mergeFrequencies config now s scope source.1 source.2 destination
    return { merged with
      sets := (eachBucket frequencies).foldl (fun sets bucket ↦
        TimeSeriesSet.swap config now (getBucketMembershipKey config scope source.1
          (packFrequencyCoordinate bucket.1 bucket.2.1)) timestamp sets source.2 destination)
        merged.sets }

/-- A destination cannot be merged into itself. -/
def merge (timestamp : ℤ) (scope destination : Label) (sources : List (Label × Label))
    (s : VolatileStore) : VolatileStore :=
  if ∃ source ∈ sources, source.2 = destination then s
  else lastStore (sources.foldlM (mergeSource config now timestamp scope destination) s)

def deleteSource (timestamp : ℤ) (scope : Label) (s : VolatileStore) (source : Label × Label) :
    Except VolatileStore VolatileStore :=
  match getFrequencies config s.items scope source.1 source.2 with
  | none => .error s
  | some frequencies =>
    let cleared := clearFrequencies config s scope source.1 source.2
    .ok { cleared with
      sets := (eachBucket frequencies).foldl (fun sets bucket ↦
        TimeSeriesSet.remove config (getBucketMembershipKey config scope source.1
          (packFrequencyCoordinate bucket.1 bucket.2.1)) timestamp sets source.2) cleared.sets }

def delete (timestamp : ℤ) (scope : Label) (sources : List (Label × Label)) (s : VolatileStore) :
    VolatileStore :=
  lastStore (sources.foldlM (deleteSource config timestamp scope) s)

abbrev Exported := Option (ExportedData × ℤ)

def exportEntry (timestamp : ℤ) (scope : Label) (s : VolatileStore) (source : Label × Label) :
    Option Exported :=
  let hash := s.hashes (getFrequencyKey config scope source.1 source.2)
  if hash.items = [] then some none
  else (getFrequencies config s.items scope source.1 source.2).map fun frequencies ↦
    some (frequencies.zipIdx.map fun band ↦ band.1.map fun bucket ↦
      (bucket.1, bucket.2, Similarity.TimeSeriesSet.exportMember config
        (getBucketMembershipKey config scope source.1
          (packFrequencyCoordinate (band.2 + 1) bucket.1)) timestamp s.items.sets source.2),
      timestamp + max (ttl now hash) 0)

def importEntry (timestamp : ℤ) (scope : Label) (s : VolatileStore)
    (source : Label × Label × Exported) : VolatileStore :=
  match source.2.2 with
  | none => s
  | some (data, time) =>
    let sets := (data.zipIdx.flatMap fun band ↦ band.1.map fun bucket ↦
      (band.2 + 1, bucket)).foldl (fun sets bucket ↦
        TimeSeriesSet.importMember config now (getBucketMembershipKey config scope source.1
          (packFrequencyCoordinate bucket.1 bucket.2.1)) sets source.2.1 bucket.2.2.2) s.sets
    setFrequencies config now timestamp { s with sets := sets } scope source.1 source.2.1
      (data.map fun band ↦ band.map fun bucket ↦ (bucket.1, bucket.2.1)) (some time)

/-- The commands; an entry that is imported has the position of its data among those that have been
exported. -/
inductive Command
  | record (timestamp : ℤ) (scope key : Label) (signatures : List (Signature config))
  | merge (timestamp : ℤ) (scope destination : Label) (sources : List (Label × Label))
  | delete (timestamp : ℤ) (scope : Label) (sources : List (Label × Label))
  | exportData (timestamp : ℤ) (scope : Label) (entries : List (Label × Label))
  | importData (timestamp : ℤ) (scope : Label) (entries : List (Label × Label × ℕ))

/-- The store and what has been exported from it. -/
structure ExpiringState where
  store : VolatileStore
  exported : List Exported

def VolatileStore.live (s : VolatileStore) : VolatileStore :=
  ⟨fun key ↦ (s.hashes key).live now, fun key ↦ (s.sets key).live now⟩

/-- The entries of an import with their data. -/
def sourcesOf (exported : List Exported) (entries : List (Label × Label × ℕ)) :
    List (Label × Label × Exported) :=
  entries.filterMap fun entry ↦ exported[entry.2.2]?.map fun data ↦ (entry.1, entry.2.1, data)

def runCommand (s : ExpiringState) : Command config → ExpiringState
  | .record timestamp scope key signatures =>
    { s with store := record config now timestamp scope key signatures s.store }
  | .merge timestamp scope destination sources =>
    { s with store := merge config now timestamp scope destination sources s.store }
  | .delete timestamp scope sources =>
    { s with store := delete config timestamp scope sources s.store }
  | .exportData timestamp scope entries =>
    match entries.mapM (exportEntry config now timestamp scope s.store) with
    | some data => { s with exported := s.exported ++ data }
    | none => s
  | .importData timestamp scope entries =>
    { s with
      store := (sourcesOf s.exported entries).foldl (importEntry config now timestamp scope)
        s.store }

/-- The index is empty at first; a command comes with the time of Redis, in milliseconds. -/
def expiringIndex : Library.Machine ExpiringState (ℤ × Command config) where
  init := ⟨⟨fun _ ↦ ∅, fun _ ↦ ∅⟩, []⟩
  step s event := runCommand config event.1 { s with store := s.store.live event.1 } event.2

end Sentry.Similarity.ExpiringKeys
