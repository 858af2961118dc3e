import Sentry.Library.Dictionary
import Sentry.Library.Machine
import Mathlib.Data.Char

/-!
# The index of similar items

The script keeps two structures in Redis: a hash for each index and item with how often the item was
recorded in a bucket of a band, and for each index, interval, band and bucket the set of the items
that were recorded there. A redis string is a list of characters, one for each byte.

Keys do not expire, so that their times to live are left out, and counters are not bounded.
-/

namespace Sentry.Similarity

open Library (setItem getItem dictOfItems)

/-- Scopes, indexes and items: the numbers of projects and groups, and the aliases of features. -/
structure Label where
  text : List Char
  wellFormed : ∀ c ∈ text, c ≠ ':' ∧ c ≠ '\x00'
  deriving DecidableEq

/-- A label of one letter. -/
def letter (c : Char) (h : c ≠ ':' ∧ c ≠ '\x00') : Label := ⟨[c], by simpa using h⟩

/-- The arguments that are the same for all commands; a band is packed in one byte. -/
structure IndexConfig where
  nameSpace : List Char
  bands : ℕ
  interval : ℤ
  retention : ℕ
  bands_lt : bands < 256
  interval_pos : 0 < interval

/-- The keys of Redis. -/
structure Store where
  hashes : List Char → List (List Char × ℤ)
  sets : List Char → List Label

variable (config : IndexConfig)

/-- `math.floor(timestamp / interval)`. -/
def currentIndex (timestamp : ℤ) : ℤ := timestamp / config.interval

/-- From `current - retention` to `current`. -/
def window (timestamp : ℤ) : List ℤ :=
  (List.range (config.retention + 1)).map fun (i : ℕ) ↦
    currentIndex config timestamp - config.retention + i

def sadd (member : Label) (set : List Label) : List Label :=
  if member ∈ set then set else set ++ [member]

def srem (member : Label) (set : List Label) : List Label := set.filter (· ≠ member)

/-- What `swap` does with one set. -/
def swapMember (old new : Label) (set : List Label) : List Label :=
  if old ∈ set then sadd new (srem old set) else set

def modifySet (f : List Label → List Label) (sets : List Char → List Label) (key : List Char) :
    List Char → List Label :=
  Function.update sets key (f (sets key))

def TimeSeriesSet.add (keyFunction : ℤ → List Char) (timestamp : ℤ)
    (sets : List Char → List Label) (member : Label) : List Char → List Label :=
  modifySet (sadd member) sets (keyFunction (currentIndex config timestamp))

def TimeSeriesSet.remove (keyFunction : ℤ → List Char) (timestamp : ℤ)
    (sets : List Char → List Label) (member : Label) : List Char → List Label :=
  (window config timestamp).foldl
    (fun sets index ↦ modifySet (srem member) sets (keyFunction index)) sets

def TimeSeriesSet.swap (keyFunction : ℤ → List Char) (timestamp : ℤ)
    (sets : List Char → List Label) (old new : Label) : List Char → List Label :=
  (window config timestamp).foldl
    (fun sets index ↦ modifySet (swapMember old new) sets (keyFunction index)) sets

def TimeSeriesSet.exportMember (keyFunction : ℤ → List Char) (timestamp : ℤ)
    (sets : List Char → List Label) (member : Label) : List ℤ :=
  (window config timestamp).filter fun index ↦ member ∈ sets (keyFunction index)

def TimeSeriesSet.importMember (keyFunction : ℤ → List Char) (sets : List Char → List Label)
    (member : Label) (data : List ℤ) : List Char → List Label :=
  data.foldl (fun sets index ↦ modifySet (sadd member) sets (keyFunction index)) sets

def getKeyPrefix (scope index : Label) : List Char :=
  config.nameSpace ++ ':' :: '\x7b' :: (scope.text ++ '\x7d' :: ':' :: index.text)

def getFrequencyKey (scope index item : Label) : List Char :=
  getKeyPrefix config scope index ++ ':' :: 'f' :: ':' :: item.text

/-- The band is one byte. -/
def packFrequencyCoordinate (band : ℕ) (bucket : List Char) : List Char :=
  Char.ofNat (band % 256) :: bucket

def unpackFrequencyCoordinate : List Char → Option (ℕ × List Char)
  | band :: bucket => some (band.toNat, bucket)
  | [] => none

/-- The key function of the sets of a band and a bucket. -/
def getBucketMembershipKey (scope index : Label) (coordinate : List Char) (i : ℤ) : List Char :=
  getKeyPrefix config scope index ++ ':' :: 'm' :: ':' :: ((toString i).toList ++ ':' :: coordinate)

/-- The buckets of each band, with their counts. -/
abbrev Frequencies := List (List (List Char × ℤ))

def eachBucket (frequencies : Frequencies) : List (ℕ × List Char × ℤ) :=
  frequencies.zipIdx.flatMap fun band ↦ band.1.map fun bucket ↦ (band.2 + 1, bucket)

def hincrby (hash : List (List Char × ℤ)) (field : List Char) (count : ℤ) : List (List Char × ℤ) :=
  setItem field ((getItem hash field).getD 0 + count) hash

/-- `frequencies[band][bucket] = tonumber(value)`, which fails if there is no such band. -/
def readField (frequencies : ℕ → List (List Char × ℤ)) (field : List Char × ℤ) :
    Option (ℕ → List (List Char × ℤ)) :=
  match unpackFrequencyCoordinate field.1 with
  | some (band, bucket) =>
    if 1 ≤ band ∧ band ≤ config.bands then
      some (Function.update frequencies band (setItem bucket field.2 (frequencies band)))
    else none
  | none => none

def getFrequencies (s : Store) (scope index item : Label) : Option Frequencies :=
  let response := s.hashes (getFrequencyKey config scope index item)
  (response.foldlM (readField config) fun _ ↦ []).map fun frequencies ↦
    (List.range config.bands).map fun i ↦ frequencies (i + 1)

def setFrequencies (s : Store) (scope index item : Label) (frequencies : Frequencies) : Store :=
  let key := getFrequencyKey config scope index item
  { s with
    hashes := Function.update s.hashes key ((eachBucket frequencies).foldl
      (fun hash bucket ↦ hincrby hash (packFrequencyCoordinate bucket.1 bucket.2.1) bucket.2.2)
      (s.hashes key)) }

def mergeFrequencies (s : Store) (scope index source destination : Label) : Store :=
  let sourceKey := getFrequencyKey config scope index source
  let destinationKey := getFrequencyKey config scope index destination
  let response := s.hashes sourceKey
  if response = [] then s
  else
    let merged := response.foldl (fun hash field ↦ hincrby hash field.1 field.2)
      (s.hashes destinationKey)
    { s with
      hashes := Function.update (Function.update s.hashes destinationKey merged) sourceKey [] }

def clearFrequencies (s : Store) (scope index item : Label) : Store :=
  { s with hashes := Function.update s.hashes (getFrequencyKey config scope index item) [] }

/-- The frequencies that are recorded for an index: the buckets of each band as they are given. -/
structure Signature where
  index : Label
  buckets : Frequencies
  length_eq : buckets.length = config.bands

def Signature.frequencies {config : IndexConfig} (signature : Signature config) : Frequencies :=
  signature.buckets.map dictOfItems

def recordSignature (timestamp : ℤ) (scope key : Label) (s : Store) (signature : Signature config) :
    Store :=
  let recorded := setFrequencies config s scope signature.index key signature.frequencies
  { recorded with
    sets := (eachBucket signature.frequencies).foldl (fun sets bucket ↦
      TimeSeriesSet.add config (getBucketMembershipKey config scope signature.index
        (packFrequencyCoordinate bucket.1 bucket.2.1)) timestamp sets key) recorded.sets }

def record (timestamp : ℤ) (scope key : Label) (signatures : List (Signature config)) (s : Store) :
    Store :=
  signatures.foldl (recordSignature config timestamp scope key) s

def mergeSources (timestamp : ℤ) (scope destination : Label) (s : Store) :
    List (Label × Label) → Store
  | [] => s
  | (index, key) :: sources =>
    match getFrequencies config s scope index key with
    | none => s
    | some frequencies =>
      let merged := mergeFrequencies config s scope index key destination
      mergeSources timestamp scope destination { merged with
        sets := (eachBucket frequencies).foldl (fun sets bucket ↦
          TimeSeriesSet.swap config (getBucketMembershipKey config scope index
            (packFrequencyCoordinate bucket.1 bucket.2.1)) timestamp sets key destination)
          merged.sets } sources

/-- A destination cannot be merged into itself. -/
def merge (timestamp : ℤ) (scope destination : Label) (sources : List (Label × Label)) (s : Store) :
    Store :=
  if ∃ source ∈ sources, source.2 = destination then s
  else mergeSources config timestamp scope destination s sources

def delete (timestamp : ℤ) (scope : Label) (s : Store) : List (Label × Label) → Store
  | [] => s
  | (index, key) :: sources =>
    match getFrequencies config s scope index key with
    | none => s
    | some frequencies =>
      let cleared := clearFrequencies config s scope index key
      delete timestamp scope { cleared with
        sets := (eachBucket frequencies).foldl (fun sets bucket ↦
          TimeSeriesSet.remove config (getBucketMembershipKey config scope index
            (packFrequencyCoordinate bucket.1 bucket.2.1)) timestamp sets key)
          cleared.sets } sources

abbrev ExportedData := List (List (List Char × ℤ × List ℤ))

def exportEntry (timestamp : ℤ) (scope : Label) (s : Store) (source : Label × Label) :
    Option ExportedData :=
  if s.hashes (getFrequencyKey config scope source.1 source.2) = [] then some []
  else (getFrequencies config s scope source.1 source.2).map fun frequencies ↦
    frequencies.zipIdx.map fun band ↦ band.1.map fun bucket ↦
      (bucket.1, bucket.2, TimeSeriesSet.exportMember config (getBucketMembershipKey config scope
        source.1 (packFrequencyCoordinate (band.2 + 1) bucket.1)) timestamp s.sets source.2)

def importEntry (scope : Label) (s : Store) (source : Label × Label × ExportedData) : Store :=
  if source.2.2 = [] then s
  else
    let sets := (source.2.2.zipIdx.flatMap fun band ↦ band.1.map fun bucket ↦
      (band.2 + 1, bucket)).foldl (fun sets bucket ↦
        TimeSeriesSet.importMember (getBucketMembershipKey config scope source.1
          (packFrequencyCoordinate bucket.1 bucket.2.1)) sets source.2.1 bucket.2.2.2) s.sets
    setFrequencies config { s with sets := sets } scope source.1 source.2.1
      (source.2.2.map fun band ↦ band.map fun bucket ↦ (bucket.1, bucket.2.1))

/-- The commands; an entry that is imported has the position of its data among those that have been
exported. -/
inductive Command
  | record (timestamp : ℤ) (scope key : Label) (signatures : List (Signature config))
  | merge (timestamp : ℤ) (scope destination : Label) (sources : List (Label × Label))
  | delete (timestamp : ℤ) (scope : Label) (sources : List (Label × Label))
  | exportData (timestamp : ℤ) (scope : Label) (entries : List (Label × Label))
  | importData (scope : Label) (entries : List (Label × Label × ℕ))

/-- The store and what has been exported from it. -/
structure IndexState where
  store : Store
  exported : List ExportedData

def runCommand (s : IndexState) : Command config → IndexState
  | .record timestamp scope key signatures =>
    { s with store := record config timestamp scope key signatures s.store }
  | .merge timestamp scope destination sources =>
    { s with store := merge config timestamp scope destination sources s.store }
  | .delete timestamp scope sources =>
    { s with store := delete config timestamp scope s.store sources }
  | .exportData timestamp scope entries =>
    match entries.mapM (exportEntry config timestamp scope s.store) with
    | some data => { s with exported := s.exported ++ data }
    | none => s
  | .importData scope entries =>
    let sources := entries.filterMap fun entry ↦
      s.exported[entry.2.2]?.map fun data ↦ (entry.1, entry.2.1, data)
    { s with store := sources.foldl (importEntry config scope) s.store }

/-- The index is empty at first. -/
def minHashIndex : Library.Machine IndexState (Command config) where
  init := ⟨⟨fun _ ↦ [], fun _ ↦ []⟩, []⟩
  step := runCommand config

end Sentry.Similarity
