import Sentry.Library.Dictionary
import Sentry.Library.Machine
import Sentry.Library.SortedSet
import Mathlib.Algebra.Order.Field.Rat

/-!
# Count-min sketches

`scripts/tsdb/cmsketch.lua`. A sketch is an index, a sorted set of items, and an estimation matrix.
The increment that fills the index initializes the matrix from it; from then on the increments
update the matrix, and the index is trimmed to the items with the highest estimates.

The hash function is a parameter, and numbers are exact. A command can raise an error; what it has
written by then stays. A Lua table is the list of its entries in the order of the iteration.
-/

namespace Sentry.Tsdb.CountMin

open Library

variable {Item : Type*} [LinearOrder Item]

/-- The depth and width of the matrix, and the capacity of the index. -/
structure Configuration where
  depth : ℕ
  width : ℕ
  index : ℕ

abbrev Coordinate := ℕ × ℕ

/-- `struct.pack('>HH', …)` -/
def pack (d w : ℕ) : Coordinate := (d % 2 ^ 16, w % 2 ^ 16)

abbrev Estimates := List (Coordinate × ℚ)

structure Sketch (Item : Type*) [LinearOrder Item] where
  index : SortedSet Item ℚ
  estimates : Estimates

/-- What `EXPORT` packs: the entries of the index, and those of the matrix. -/
structure Payload (Item : Type*) where
  index : List (Item × ℚ)
  estimates : Estimates

/-- `Sketch:coordinates` -/
def coordinates (hash : Item → ℕ → ℤ) (configuration : Configuration) (value : Item) :
    List Coordinate :=
  (List.range configuration.depth).map fun d ↦
    pack (d + 1) (hash value (d + 1) % configuration.width + 1).toNat

/-- `Sketch:observations` -/
def observations (estimates : Estimates) (c : Coordinate) : ℚ := (getItem estimates c).getD 0

/-- `reduce(math.min, …)` over the observations; there is none of no coordinates. -/
def minObservation (estimates : Estimates) (cs : List Coordinate) : Option ℚ :=
  (cs.map (observations estimates)).min?

/-- The reply of `EXISTS`. -/
def keyExists (sketch : Sketch Item) : ℕ := if sketch.index.card = 0 then 0 else 1

/-- A condition in Lua holds of every number, `0` too. -/
def truthy (_ : ℕ) : Bool := true

/-- `Sketch:estimate`; formatting no number is an error. -/
def estimate (cs : Item → List Coordinate) (sketch : Sketch Item) (value : Item) : Option ℚ :=
  if truthy (keyExists sketch) then
    (sketch.index.score value).or (minObservation sketch.estimates (cs value))
  else some 0

def updateEstimates (estimates : Estimates) (cs : List Coordinate) (score : ℚ) : Estimates :=
  (cs.map fun c ↦ (c, observations estimates c)).foldl
    (fun current item ↦
      if item.2 ≠ max score item.2 then setItem item.1 (max score item.2) current else current)
    estimates

/-- `ZINCRBY`, and the count of the items that are new by their score. -/
def zincrBy (state : SortedSet Item ℚ × ℕ) (item : Item × ℚ) : SortedSet Item ℚ × ℕ :=
  (state.1.add item.1 ((state.1.score item.1).getD 0 + item.2),
    if (state.1.score item.1).getD 0 + item.2 = item.2 then state.2 + 1 else state.2)

def initializeMatrix (cs : Item → List Coordinate) (estimates : Estimates)
    (members : List (Item × ℚ)) : Estimates :=
  members.foldl (fun current member ↦ updateEstimates current (cs member.1) member.2) estimates

def updateAll (cs : Item → List Coordinate) (index : SortedSet Item ℚ) :
    Estimates → List (Item × ℚ) → Estimates × Option (List ℚ)
  | estimates, [] => (estimates, some [])
  | estimates, (value, delta) :: rest =>
    match (index.score value).or (minObservation estimates (cs value)) with
    | none => (estimates, none)
    | some score =>
      let next := updateAll cs index (updateEstimates estimates (cs value) (score + delta)) rest
      (next.1, next.2.map ((score + delta) :: ·))

/-- `ZADD` of an item whose score is above a minimum, and the count of new ones. -/
def zadd (minimum : ℚ) (state : SortedSet Item ℚ × ℕ) (item : Item × ℚ) : SortedSet Item ℚ × ℕ :=
  if minimum < item.2 then
    (state.1.add item.1 item.2, if item.1 ∈ state.1 then state.2 else state.2 + 1)
  else state

/-- `Sketch:increment`, with no results when it raises an error. -/
def increment (cs : Item → List Coordinate) (capacity : ℕ) (sketch : Sketch Item)
    (items : List (Item × ℚ)) : Sketch Item × Option (List ℚ) :=
  if sketch.index.card < capacity then
    let added := items.foldl zincrBy (sketch.index, 0)
    if capacity ≤ added.2 + sketch.index.card then
      (⟨added.1.trim capacity, initializeMatrix cs sketch.estimates added.1.entries⟩, some [])
    else (⟨added.1, sketch.estimates⟩, some [])
  else
    match updateAll cs sketch.index sketch.estimates items with
    | (estimates, none) => (⟨sketch.index, estimates⟩, none)
    | (estimates, some results) =>
      if 0 < capacity then
        match sketch.index.entries.head? with
        | none => (⟨sketch.index, estimates⟩, if items = [] then some [] else none)
        | some minimum =>
          let added := ((items.map Prod.fst).zip results).foldl (zadd minimum.2) (sketch.index, 0)
          (⟨if 0 < added.2 then added.1.trim capacity else added.1, estimates⟩, some results)
      else (⟨sketch.index, estimates⟩, some results)

/-- `Sketch:export` -/
def Sketch.exportPayload (sketch : Sketch Item) : Option (Payload Item) :=
  if truthy (keyExists sketch) then some ⟨sketch.index.entries, sketch.estimates⟩ else none

def derive (cs : Item → List Coordinate) (estimates : Estimates) (members : List (Item × ℚ)) :
    Estimates :=
  members.foldl
    (fun current member ↦ (cs member.1).foldl
      (fun current c ↦
        if observations current c < member.2 then setItem c member.2 current else current)
      current)
    estimates

/-- A number that `HINCRBY` takes. -/
def IsInteger (q : ℚ) : Prop := q.den = 1

instance (q : ℚ) : Decidable (IsInteger q) := inferInstanceAs (Decidable (q.den = 1))

/-- `HINCRBY` for each estimate of the source, up to the first that is not an integer, or whose
field is not one; and whether all went well. -/
def hincrBy : Estimates → Estimates → Estimates × Bool
  | estimates, [] => (estimates, true)
  | estimates, (c, value) :: rest =>
    if IsInteger value ∧ IsInteger (observations estimates c) then
      hincrBy (setItem c (observations estimates c + value) estimates) rest
    else (estimates, false)

def rebuild (cs : Item → List Coordinate) (estimates : Estimates) :
    SortedSet Item ℚ → List Item → SortedSet Item ℚ × Bool
  | index, [] => (index, true)
  | index, value :: rest =>
    match minObservation estimates (cs value) with
    | none => (index, false)
    | some score => rebuild cs estimates (index.add value score) rest

def estimators (cs : Item → List Coordinate) (sketch : Sketch Item) : Estimates :=
  if sketch.estimates = [] then derive cs sketch.estimates sketch.index.entries
  else sketch.estimates

/-- `Sketch:import` of a payload with the entries of its tables in any order, and whether all went
well. -/
def Sketch.importPayload (cs : Item → List Coordinate) (capacity : ℕ) (sketch : Sketch Item)
    (payload : Payload Item) : Sketch Item × Bool :=
  if payload.estimates = [] then
    ((increment cs capacity sketch payload.index).1,
      (increment cs capacity sketch payload.index).2.isSome)
  else
    match hincrBy (estimators cs sketch) payload.estimates with
    | (estimates, false) => (⟨sketch.index, estimates⟩, false)
    | (estimates, true) =>
      match rebuild cs estimates SortedSet.empty
        (payload.index.map Prod.fst ++ sketch.index.entries.map Prod.fst).dedup with
      | (index, false) => (⟨index, estimates⟩, false)
      | (index, true) => (⟨index.trim capacity, estimates⟩, true)

/-- The sketches by their keys, what was added to them, and the payloads that were exported, with
what had been added then. -/
structure State (Item : Type*) [LinearOrder Item] where
  sketches : ℕ → Sketch Item
  totals : ℕ → Item → ℚ
  exported : List (Payload Item × (Item → ℚ))

/-- `INCR`, `EXPORT` and `IMPORT` for one sketch; the payload is one of the exported ones, with its
tables in the order in which they are iterated. -/
inductive Command (Item : Type*)
  | incr (key : ℕ) (items : List (Item × ℚ))
  | exportPayload (key : ℕ)
  | importPayload (key number : ℕ) (payload : Payload Item)

def itemsTotal (items : List (Item × ℚ)) (value : Item) : ℚ :=
  ((items.filter (·.1 = value)).map Prod.snd).sum

namespace State

variable (s : State Item)

def setSketch (key : ℕ) (sketch : Sketch Item) : State Item :=
  { s with sketches := Function.update s.sketches key sketch }

def addTotals (key : ℕ) (added : Item → ℚ) : State Item :=
  { s with totals := Function.update s.totals key fun value ↦ s.totals key value + added value }

/-- `INCR`: the increments have to be positive. A failed one has added nothing. -/
def incr (cs : Item → List Coordinate) (capacity key : ℕ) (items : List (Item × ℚ)) : State Item :=
  if ∀ item ∈ items, 0 < item.2 then
    let result := increment cs capacity (s.sketches key) items
    match result.2 with
    | some _ => (s.setSketch key result.1).addTotals key (itemsTotal items)
    | none => s.setSketch key result.1
  else s

/-- `EXPORT` -/
def exportPayload (key : ℕ) : State Item :=
  match (s.sketches key).exportPayload with
  | some payload => { s with exported := s.exported ++ [(payload, s.totals key)] }
  | none => s

/-- `IMPORT`: a failed one has added nothing. -/
def importPayload (cs : Item → List Coordinate) (capacity key number : ℕ) (payload : Payload Item) :
    State Item :=
  match s.exported[number]? with
  | some (source, total) =>
    if payload.index.Perm source.index ∧ payload.estimates.Perm source.estimates then
      match (s.sketches key).importPayload cs capacity payload with
      | (sketch, true) => (s.setSketch key sketch).addTotals key total
      | (sketch, false) => s.setSketch key sketch
    else s
  | none => s

/-- One command. -/
def step (cs : Item → List Coordinate) (capacity : ℕ) : Command Item → State Item
  | .incr key items => s.incr cs capacity key items
  | .exportPayload key => s.exportPayload key
  | .importPayload key number payload => s.importPayload cs capacity key number payload

end State

/-- Any number of sketches with one configuration, from no data on. -/
def sketches (hash : Item → ℕ → ℤ) (configuration : Configuration) :
    Machine (State Item) (Command Item) where
  init := ⟨fun _ ↦ ⟨SortedSet.empty, []⟩, fun _ _ ↦ 0, []⟩
  step s command := s.step (coordinates hash configuration) configuration.index command

end Sentry.Tsdb.CountMin
