import Sentry.Library.Occurrences
import Sentry.Similarity.MinHashIndex

/-!
# What the index contains

The keys of Redis are different for different hashes and sets (`getFrequencyKey_inj`,
`getBucketMembershipKey_inj`), so that the index consists of counts and memberships (`contents`), to
which recording and importing add (`contents_recordSignature`, `contents_importEntry`), and which
merging moves and deleting removes (`contents_mergeSource`, `contents_deleteSource`), if the window
contains every interval with a member.
-/

namespace Sentry.Similarity

open List Function
open Library (setItem getItem dictOfItems Occurrence Occurrences total addCounts)

variable {config : IndexConfig} {scope scope' index index' item item' : Label}

/-! ### Keys -/

theorem eq_of_append_colon {first first' rest rest' : List Char} (hfirst : ':' ∉ first)
    (hfirst' : ':' ∉ first') (h : first ++ ':' :: rest = first' ++ ':' :: rest') :
    first = first' ∧ rest = rest' := by
  have hbefore : ∀ {part : List Char} (rest : List Char), ':' ∉ part →
      (part ++ ':' :: rest).takeWhile (· ≠ ':') = part := by
    intro part rest hpart
    have hall : ∀ c ∈ part, decide (c ≠ ':') = true :=
      fun c hc ↦ decide_eq_true fun heq ↦ hpart (heq ▸ hc)
    rw [takeWhile_append_of_pos hall]
    simp
  have heq : first = first' := by rw [← hbefore rest hfirst, h, hbefore rest' hfirst']
  rw [heq] at h
  exact ⟨heq, (cons_inj_right _).mp (append_cancel_left h)⟩

theorem Label.colon_notMem (label : Label) : ':' ∉ label.text :=
  fun hmem ↦ (label.wellFormed ':' hmem).1 rfl

theorem Label.eq_of_text {label label' : Label} (h : label.text = label'.text) :
    label = label' := by
  cases label
  cases label'
  congr

theorem eq_of_getKeyPrefix {rest rest' : List Char}
    (h : getKeyPrefix config scope index ++ ':' :: rest =
      getKeyPrefix config scope' index' ++ ':' :: rest') :
    scope = scope' ∧ index = index' ∧ rest = rest' := by
  have hscope : ∀ {label : Label}, ':' ∉ label.text ++ ['\x7d'] := by
    intro label hmem
    rcases mem_append.mp hmem with htext | hbrace
    · exact label.colon_notMem htext
    · exact absurd (mem_singleton.mp hbrace) (by decide)
  have hsplit : ∀ (scope index : Label) (rest : List Char),
      getKeyPrefix config scope index ++ ':' :: rest = config.nameSpace ++ ':' :: '\x7b' ::
        ((scope.text ++ ['\x7d']) ++ ':' :: (index.text ++ ':' :: rest)) := by
    intro scope index rest
    simp [getKeyPrefix]
  rw [hsplit, hsplit] at h
  have htail := (cons_inj_right _).mp ((cons_inj_right _).mp (append_cancel_left h))
  obtain ⟨hscopes, hindexes⟩ := eq_of_append_colon hscope hscope htail
  obtain ⟨hindex, hrest⟩ := eq_of_append_colon index.colon_notMem index'.colon_notMem hindexes
  exact ⟨Label.eq_of_text (append_cancel_right hscopes), Label.eq_of_text hindex, hrest⟩

theorem getFrequencyKey_inj :
    getFrequencyKey config scope index item = getFrequencyKey config scope' index' item' ↔
      scope = scope' ∧ index = index' ∧ item = item' := by
  constructor
  · intro h
    obtain ⟨hscope, hindex, hrest⟩ := eq_of_getKeyPrefix h
    exact ⟨hscope, hindex, Label.eq_of_text (by simpa using hrest)⟩
  · rintro ⟨rfl, rfl, rfl⟩
    rfl

theorem toString_toList_inj {i j : ℤ} (h : (toString i).toList = (toString j).toList) : i = j := by
  have hnat : ∀ {m n : ℕ}, m.repr.toList = n.repr.toList → m = n := by
    intro m n heq
    rw [Nat.toList_repr, Nat.toList_repr] at heq
    rw [← Nat.ofDigitChars_ten_toDigits (n := m), heq, Nat.ofDigitChars_ten_toDigits]
  have hsign : ∀ {m n : ℕ}, m.repr.toList ≠ ("-" ++ n.repr).toList := by
    intro m n heq
    rw [Nat.toList_repr, String.toList_append] at heq
    have hmem : '-' ∈ Nat.toDigits 10 m := by
      rw [heq]
      exact mem_append_left _ (mem_singleton.mpr rfl)
    exact absurd (Nat.isDigit_of_mem_toDigits (by decide) le_rfl hmem) (by decide)
  rw [Int.toString_eq_repr, Int.toString_eq_repr, Int.repr_eq_if, Int.repr_eq_if] at h
  by_cases hi : 0 ≤ i
  · by_cases hj : 0 ≤ j
    · rw [if_pos hi, if_pos hj] at h
      have hsame := hnat h
      omega
    · rw [if_pos hi, if_neg hj] at h
      exact absurd h hsign
  · by_cases hj : 0 ≤ j
    · rw [if_neg hi, if_pos hj] at h
      exact absurd h.symm hsign
    · rw [if_neg hi, if_neg hj, String.toList_append, String.toList_append] at h
      have hsame := hnat (append_cancel_left h)
      omega

theorem colon_notMem_toString (i : ℤ) : ':' ∉ (toString i).toList := by
  have hnat : ∀ n : ℕ, ':' ∉ n.repr.toList := by
    intro n hmem
    rw [Nat.toList_repr] at hmem
    exact absurd (Nat.isDigit_of_mem_toDigits (by decide) le_rfl hmem) (by decide)
  rw [Int.toString_eq_repr, Int.repr_eq_if]
  split
  next => exact hnat _
  next =>
    rw [String.toList_append, mem_append, not_or]
    exact ⟨by decide, hnat _⟩

theorem getBucketMembershipKey_inj {coordinate coordinate' : List Char} {i j : ℤ} :
    getBucketMembershipKey config scope index coordinate i =
      getBucketMembershipKey config scope' index' coordinate' j ↔
        scope = scope' ∧ index = index' ∧ coordinate = coordinate' ∧ i = j := by
  constructor
  · intro h
    obtain ⟨hscope, hindex, hrest⟩ := eq_of_getKeyPrefix h
    have htail := (cons_inj_right _).mp ((cons_inj_right _).mp hrest)
    obtain ⟨hi, hcoordinate⟩ :=
      eq_of_append_colon (colon_notMem_toString i) (colon_notMem_toString j) htail
    exact ⟨hscope, hindex, hcoordinate, toString_toList_inj hi⟩
  · rintro ⟨rfl, rfl, rfl, rfl⟩
    rfl

/-! ### Hashes -/

theorem getItem_hincrby (hash : List (List Char × ℤ)) (field other : List Char) (count : ℤ) :
    getItem (hincrby hash field count) other =
      if field = other then addCounts (getItem hash other) (some count)
      else getItem hash other := by
  rw [hincrby, Library.getItem_setItem]
  by_cases h : field = other
  · rw [if_pos h, if_pos h, h]
    cases getItem hash other with
    | none => exact congrArg some (zero_add count)
    | some old => rfl
  · rw [if_neg h, if_neg h]

variable {hash : List (List Char × ℤ)}

def occurrencesOf (hash : List (List Char × ℤ)) : List (Occurrence (List Char) ℤ) :=
  hash.map fun field ↦ ⟨field.1, field.2, []⟩

theorem getItem_foldl_hincrby (occurrences : List (Occurrence (List Char) ℤ))
    (hash : List (List Char × ℤ)) (field : List Char) :
    getItem (occurrences.foldl (fun hash occurrence ↦
      hincrby hash occurrence.field occurrence.count) hash) field =
        addCounts (getItem hash field) (total occurrences field) := by
  induction occurrences generalizing hash with
  | nil => exact (Library.addCounts_none _).symm
  | cons occurrence occurrences ih =>
    rw [foldl_cons, ih, getItem_hincrby, total]
    by_cases h : occurrence.field = field
    · rw [if_pos h, if_pos h, Library.addCounts_assoc]
    · rw [if_neg h, if_neg h]

theorem nodup_keys_foldl_hincrby (h : (hash.map Prod.fst).Nodup)
    (occurrences : List (Occurrence (List Char) ℤ)) :
    ((occurrences.foldl (fun hash occurrence ↦
      hincrby hash occurrence.field occurrence.count) hash).map Prod.fst).Nodup := by
  induction occurrences generalizing hash with
  | nil => exact h
  | cons occurrence occurrences ih => exact ih (Library.nodup_keys_setItem h _ _)

theorem total_occurrencesOf (h : (hash.map Prod.fst).Nodup)
    (field : List Char) : total (occurrencesOf hash) field = getItem hash field := by
  induction hash with
  | nil => rfl
  | cons entry hash ih =>
    obtain ⟨hnotMem, hnodup⟩ := nodup_cons.mp h
    show (if entry.1 = field then addCounts (some entry.2) (total (occurrencesOf hash) field)
      else total (occurrencesOf hash) field) = _
    rw [ih hnodup, Library.getItem_cons]
    by_cases hfield : entry.1 = field
    · rw [if_pos hfield, if_pos hfield, ← hfield, Library.getItem_of_notMem hnotMem,
        Library.addCounts_none]
    · rw [if_neg hfield, if_neg hfield]

/-! ### Sets -/

theorem mem_sadd {member x : Label} {set : List Label} :
    x ∈ sadd member set ↔ x = member ∨ x ∈ set := by
  unfold sadd
  split
  next h => exact ⟨Or.inr, fun hx ↦ hx.elim (fun heq ↦ heq ▸ h) id⟩
  next => rw [mem_append, mem_singleton, or_comm]

theorem sadd_sadd (member : Label) (set : List Label) :
    sadd member (sadd member set) = sadd member set := if_pos (mem_sadd.mpr (Or.inl rfl))

theorem mem_srem {member x : Label} {set : List Label} :
    x ∈ srem member set ↔ x ≠ member ∧ x ∈ set := by
  rw [srem, mem_filter, decide_eq_true_eq, and_comm]

theorem srem_srem (member : Label) (set : List Label) :
    srem member (srem member set) = srem member set :=
  filter_eq_self.mpr fun _ hx ↦ (mem_filter.mp hx).2

theorem mem_swapMember {old new x : Label} (hne : old ≠ new) {set : List Label} :
    x ∈ swapMember old new set ↔
      if x = old then False else if x = new then x ∈ set ∨ old ∈ set else x ∈ set := by
  unfold swapMember
  by_cases hold : old ∈ set
  · rw [if_pos hold, mem_sadd, mem_srem]
    by_cases hx : x = old
    · simp [hx, hne]
    · by_cases hnew : x = new
      · simp [hnew, hne.symm, hold]
      · simp [hx, hnew]
  · rw [if_neg hold]
    by_cases hx : x = old
    · simp [hx, hold]
    · simp [hx, hold]

theorem swapMember_swapMember {old new : Label} (hne : old ≠ new) (set : List Label) :
    swapMember old new (swapMember old new set) = swapMember old new set := by
  have hgone : old ∉ swapMember old new set := by
    rw [mem_swapMember hne, if_pos rfl]
    exact not_false
  exact if_neg hgone

theorem foldl_modifySet {f : List Label → List Label} (hf : ∀ set, f (f set) = f set)
    (keys : List (List Char)) (sets : List Char → List Label) (key : List Char) :
    keys.foldl (modifySet f) sets key = if key ∈ keys then f (sets key) else sets key := by
  induction keys generalizing sets with
  | nil => rfl
  | cons first keys ih =>
    rw [foldl_cons, ih, modifySet]
    by_cases hfirst : key = first
    · rw [hfirst, update_self, hf, ite_self, if_pos mem_cons_self]
    · rw [update_of_ne hfirst]
      simp only [mem_cons, hfirst, false_or]

/-! ### Contents -/

/-- The counts and memberships of the index. -/
def contents (config : IndexConfig) (s : Store) :
    Occurrences (Label × Label) Label (List Char) ℤ where
  frequency place item field :=
    getItem (s.hashes (getFrequencyKey config place.1 place.2 item)) field
  member place item field interval :=
    item ∈ s.sets (getBucketMembershipKey config place.1 place.2 field interval)

def MembersIn (config : IndexConfig) (intervals : List ℤ) (s : Store) : Prop :=
  ∀ place item field interval, (contents config s).member place item field interval →
    interval ∈ intervals

structure WellFormed (config : IndexConfig) (s : Store) : Prop where
  consistent : (contents config s).Consistent
  nodup : ∀ key, ((s.hashes key).map Prod.fst).Nodup
  packed : ∀ place item field, ((contents config s).frequency place item field).isSome →
    ∃ band bucket, 1 ≤ band ∧ band ≤ config.bands ∧ field = packFrequencyCoordinate band bucket

/-! ### Adding -/

section Adding

variable {place : Label × Label} {key destination : Label} {s s' : Store}
  {occurrences : List (Occurrence (List Char) ℤ)}

theorem contents_add (hhashes : s'.hashes = Function.update s.hashes
      (getFrequencyKey config place.1 place.2 key) (occurrences.foldl (fun hash occurrence ↦
        hincrby hash occurrence.field occurrence.count)
        (s.hashes (getFrequencyKey config place.1 place.2 key))))
    (hsets : s'.sets = occurrences.foldl (fun sets occurrence ↦
      TimeSeriesSet.importMember (getBucketMembershipKey config place.1 place.2 occurrence.field)
        sets key occurrence.intervals) s.sets) :
    contents config s' = (contents config s).add place key occurrences := by
  ext place' item field interval
  · show getItem (s'.hashes _) field = some interval ↔
      (if place' = place ∧ item = key then _ else _) = some interval
    by_cases h : place' = place ∧ item = key
    · obtain ⟨rfl, rfl⟩ := h
      rw [hhashes, update_self, getItem_foldl_hincrby, if_pos ⟨rfl, rfl⟩]
      rfl
    · rw [hhashes, if_neg h, update_of_ne]
      · rfl
      · intro heq
        obtain ⟨hscope, hindex, hitem⟩ := getFrequencyKey_inj.mp heq
        exact h ⟨Prod.ext hscope hindex, hitem⟩
  · show item ∈ s'.sets (getBucketMembershipKey config place'.1 place'.2 field interval) ↔
      item ∈ s.sets (getBucketMembershipKey config place'.1 place'.2 field interval) ∨ _
    have hfold : s'.sets = (occurrences.flatMap fun occurrence ↦ occurrence.intervals.map
        (getBucketMembershipKey config place.1 place.2 occurrence.field)).foldl
          (modifySet (sadd key)) s.sets := by
      rw [hsets, foldl_flatMap]
      simp only [TimeSeriesSet.importMember, foldl_map]
    rw [hfold, foldl_modifySet (sadd_sadd key)]
    have hkeys : getBucketMembershipKey config place'.1 place'.2 field interval ∈
        (occurrences.flatMap fun occurrence ↦ occurrence.intervals.map
          (getBucketMembershipKey config place.1 place.2 occurrence.field)) ↔
        place' = place ∧ ∃ occurrence ∈ occurrences, occurrence.field = field ∧
          interval ∈ occurrence.intervals := by
      simp only [mem_flatMap, mem_map, getBucketMembershipKey_inj]
      constructor
      · rintro ⟨occurrence, hmem, i, hi, hscope, hindex, hfield, rfl⟩
        exact ⟨Prod.ext hscope.symm hindex.symm, occurrence, hmem, hfield, hi⟩
      · rintro ⟨rfl, occurrence, hmem, hfield, hi⟩
        exact ⟨occurrence, hmem, interval, hi, rfl, rfl, hfield, rfl⟩
    by_cases hmem : getBucketMembershipKey config place'.1 place'.2 field interval ∈
        (occurrences.flatMap fun occurrence ↦ occurrence.intervals.map
          (getBucketMembershipKey config place.1 place.2 occurrence.field))
    · obtain ⟨hplace, hoccurrence⟩ := hkeys.mp hmem
      rw [if_pos hmem, mem_sadd, or_comm]
      exact or_congr_right ⟨fun hitem ↦ ⟨hplace, hitem, hoccurrence⟩, fun h ↦ h.2.1⟩
    · rw [if_neg hmem]
      exact (or_iff_left fun h ↦ hmem (hkeys.mpr ⟨h.1, h.2.2⟩)).symm

theorem WellFormed.add (hs : WellFormed config s) (hhashes : s'.hashes = Function.update s.hashes
      (getFrequencyKey config place.1 place.2 key) (occurrences.foldl (fun hash occurrence ↦
        hincrby hash occurrence.field occurrence.count)
        (s.hashes (getFrequencyKey config place.1 place.2 key))))
    (hcontents : contents config s' = (contents config s).add place key occurrences)
    (hintervals : ∀ occurrence ∈ occurrences, occurrence.intervals ≠ [])
    (hpacked : ∀ occurrence ∈ occurrences, ∃ band bucket, 1 ≤ band ∧ band ≤ config.bands ∧
      occurrence.field = packFrequencyCoordinate band bucket) : WellFormed config s' := by
  refine ⟨hcontents ▸ hs.consistent.add place key hintervals, fun other ↦ ?_, ?_⟩
  · rw [hhashes]
    by_cases hother : other = getFrequencyKey config place.1 place.2 key
    · rw [hother, update_self]
      exact nodup_keys_foldl_hincrby (hs.nodup _) occurrences
    · rw [update_of_ne hother]
      exact hs.nodup other
  · rw [hcontents]
    intro place' item field hsome
    have hsome' : (if place' = place ∧ item = key then
        addCounts ((contents config s).frequency place' item field) (total occurrences field)
      else (contents config s).frequency place' item field).isSome := hsome
    split at hsome'
    next =>
      rcases (Library.isSome_addCounts _ _).mp hsome' with hold | hnew
      · exact hs.packed place' item field hold
      · obtain ⟨occurrence, hmem, rfl⟩ := Library.isSome_total.mp hnew
        exact hpacked occurrence hmem
    next => exact hs.packed place' item field hsome'

/-- The occurrences that a signature records. -/
def Signature.recorded (signature : Signature config) (timestamp : ℤ) :
    List (Occurrence (List Char) ℤ) :=
  (eachBucket signature.frequencies).map fun bucket ↦
    ⟨packFrequencyCoordinate bucket.1 bucket.2.1, bucket.2.2, [currentIndex config timestamp]⟩

theorem hashes_setFrequencies (s : Store) (scope index key : Label) {frequencies : Frequencies}
    (h : (eachBucket frequencies).map (fun bucket ↦
      (packFrequencyCoordinate bucket.1 bucket.2.1, bucket.2.2)) =
        occurrences.map fun occurrence ↦ (occurrence.field, occurrence.count)) :
    (setFrequencies config s scope index key frequencies).hashes = Function.update s.hashes
      (getFrequencyKey config scope index key) (occurrences.foldl (fun hash occurrence ↦
        hincrby hash occurrence.field occurrence.count)
        (s.hashes (getFrequencyKey config scope index key))) := by
  have hfold := congrArg (List.foldl (fun hash (entry : List Char × ℤ) ↦
    hincrby hash entry.1 entry.2) (s.hashes (getFrequencyKey config scope index key))) h
  rw [foldl_map, foldl_map] at hfold
  rw [← hfold]
  rfl

theorem mem_eachBucket {frequencies : Frequencies} {bucket : ℕ × List Char × ℤ} :
    bucket ∈ eachBucket frequencies ↔
      ∃ buckets, frequencies[bucket.1 - 1]? = some buckets ∧ 1 ≤ bucket.1 ∧ bucket.2 ∈ buckets := by
  simp only [eachBucket, mem_flatMap, mem_map, Prod.exists, mem_zipIdx_iff_getElem?]
  constructor
  · rintro ⟨buckets, i, hbuckets, name, count, hmem, rfl⟩
    exact ⟨buckets, hbuckets, Nat.le_add_left 1 i, hmem⟩
  · rintro ⟨buckets, hbuckets, hone, hmem⟩
    refine ⟨buckets, bucket.1 - 1, hbuckets, bucket.2.1, bucket.2.2, hmem, ?_⟩
    rw [Nat.sub_add_cancel hone]

theorem hashes_recordSignature (s : Store) (timestamp : ℤ) (scope key : Label)
    (signature : Signature config) :
    (recordSignature config timestamp scope key s signature).hashes = Function.update s.hashes
      (getFrequencyKey config scope signature.index key) ((signature.recorded timestamp).foldl
        (fun hash occurrence ↦ hincrby hash occurrence.field occurrence.count)
        (s.hashes (getFrequencyKey config scope signature.index key))) := by
  refine hashes_setFrequencies s scope signature.index key ?_
  rw [Signature.recorded, map_map]
  rfl

theorem contents_recordSignature (s : Store) (timestamp : ℤ) (scope key : Label)
    (signature : Signature config) :
    contents config (recordSignature config timestamp scope key s signature) =
      (contents config s).add (scope, signature.index) key (signature.recorded timestamp) := by
  refine contents_add (hashes_recordSignature s timestamp scope key signature) ?_
  rw [Signature.recorded, foldl_map]
  rfl

def imported (data : ExportedData) : List (Occurrence (List Char) ℤ) :=
  (data.zipIdx.flatMap fun band ↦ band.1.map fun bucket ↦ (band.2 + 1, bucket)).map fun bucket ↦
    ⟨packFrequencyCoordinate bucket.1 bucket.2.1, bucket.2.2.1, bucket.2.2.2⟩

theorem hashes_importEntry (s : Store) (scope index key : Label) {data : ExportedData}
    (h : data ≠ []) :
    (importEntry config scope s (index, key, data)).hashes = Function.update s.hashes
      (getFrequencyKey config scope index key) ((imported data).foldl
        (fun hash occurrence ↦ hincrby hash occurrence.field occurrence.count)
        (s.hashes (getFrequencyKey config scope index key))) := by
  rw [importEntry, if_neg h]
  refine hashes_setFrequencies { s with sets := _ } scope index key ?_
  rw [imported, eachBucket, zipIdx_map, flatMap_map, map_flatMap, map_map, map_flatMap]
  simp [map_map, comp_def]

theorem contents_importEntry (s : Store) (scope index key : Label) {data : ExportedData}
    (h : data ≠ []) :
    contents config (importEntry config scope s (index, key, data)) =
      (contents config s).add (scope, index) key (imported data) := by
  refine contents_add (hashes_importEntry s scope index key h) ?_
  rw [importEntry, if_neg h, imported, foldl_map]
  rfl

end Adding

/-! ### Reading -/

section Reading

variable {s : Store}

theorem unpack_pack {band : ℕ} (h : band ≤ config.bands) (bucket : List Char) :
    unpackFrequencyCoordinate (packFrequencyCoordinate band bucket) = some (band, bucket) := by
  have hlt : band < 256 := h.trans_lt config.bands_lt
  have hbyte : (Char.ofNat band).toNat = band := by
    rw [Char.ofNat, dif_pos (Or.inl (by omega))]
    rfl
  rw [packFrequencyCoordinate, Nat.mod_eq_of_lt hlt, unpackFrequencyCoordinate, hbyte]

theorem pack_unpack {band : ℕ} (h : band ≤ config.bands) {field bucket : List Char}
    (hfield : unpackFrequencyCoordinate field = some (band, bucket)) :
    packFrequencyCoordinate band bucket = field := by
  have hlt : band < 256 := h.trans_lt config.bands_lt
  cases field with
  | nil => exact absurd hfield (by simp [unpackFrequencyCoordinate])
  | cons first rest =>
    obtain ⟨rfl, rfl⟩ := Prod.mk.inj (Option.some.inj hfield)
    rw [packFrequencyCoordinate, Nat.mod_eq_of_lt hlt, Char.ofNat_toNat]

theorem mem_foldlM_readField {response : List (List Char × ℤ)}
    {tables tables' : ℕ → List (List Char × ℤ)}
    (h : response.foldlM (readField config) tables = some tables') {band : ℕ}
    (hband : band ≤ config.bands) (bucket : List Char) :
    bucket ∈ (tables' band).map Prod.fst ↔ bucket ∈ (tables band).map Prod.fst ∨
      packFrequencyCoordinate band bucket ∈ response.map Prod.fst := by
  induction response generalizing tables with
  | nil =>
    rw [Option.some.inj h]
    simp
  | cons field response ih =>
    rw [foldlM_cons, Option.bind_eq_bind, Option.bind_eq_some_iff] at h
    obtain ⟨next, hnext, hrest⟩ := h
    rw [ih hrest]
    rw [readField] at hnext
    split at hnext
    next other name hunpack =>
      split at hnext
      next hother =>
        have hpack := pack_unpack hother.2 hunpack
        rw [← Option.some.inj hnext, map_cons, mem_cons, ← hpack]
        by_cases heq : band = other
        · rw [heq, update_self, Library.mem_keys_setItem]
          have hsame : packFrequencyCoordinate other bucket = packFrequencyCoordinate other name ↔
              bucket = name := by
            rw [packFrequencyCoordinate, packFrequencyCoordinate, cons_inj_right]
          tauto
        · have hne : packFrequencyCoordinate band bucket ≠ packFrequencyCoordinate other name := by
            intro hpacks
            have hunpacks := congrArg unpackFrequencyCoordinate hpacks
            rw [unpack_pack hband, unpack_pack hother.2] at hunpacks
            exact heq (Prod.mk.inj (Option.some.inj hunpacks)).1
          rw [update_of_ne heq]
          simp only [hne, false_or]
      next => exact absurd hnext (by simp)
    next => exact absurd hnext (by simp)

theorem exists_foldlM_readField {response : List (List Char × ℤ)}
    (h : ∀ field ∈ response.map Prod.fst, ∃ band bucket, 1 ≤ band ∧ band ≤ config.bands ∧
      field = packFrequencyCoordinate band bucket) (tables : ℕ → List (List Char × ℤ)) :
    ∃ tables', response.foldlM (readField config) tables = some tables' := by
  induction response generalizing tables with
  | nil => exact ⟨tables, rfl⟩
  | cons field response ih =>
    rw [map_cons, forall_mem_cons] at h
    obtain ⟨⟨band, bucket, hone, hband, hfield⟩, hrest⟩ := h
    have hread : readField config tables field =
        some (Function.update tables band (setItem bucket field.2 (tables band))) := by
      rw [readField, hfield, unpack_pack hband]
      exact if_pos ⟨hone, hband⟩
    obtain ⟨tables', htables'⟩ := ih hrest (Function.update tables band
      (setItem bucket field.2 (tables band)))
    refine ⟨tables', ?_⟩
    rw [foldlM_cons, hread]
    exact htables'

theorem getItem_isSome_iff {hash : List (List Char × ℤ)} {field : List Char} :
    (getItem hash field).isSome ↔ field ∈ hash.map Prod.fst := by
  induction hash with
  | nil => simp
  | cons entry hash ih =>
    rw [Library.getItem_cons, map_cons, mem_cons]
    by_cases hfield : entry.1 = field
    · simp [hfield]
    · rw [if_neg hfield, ih, or_iff_right (Ne.symm hfield)]

theorem mem_getFrequencies (place : Label × Label) {item : Label} {frequencies : Frequencies}
    (h : getFrequencies config s place.1 place.2 item = some frequencies) (hs : WellFormed config s)
    {field : List Char} : (∃ bucket ∈ eachBucket frequencies,
      packFrequencyCoordinate bucket.1 bucket.2.1 = field) ↔
        ((contents config s).frequency place item field).isSome := by
  rw [getFrequencies, Option.map_eq_some_iff] at h
  obtain ⟨tables, htables, rfl⟩ := h
  constructor
  · rintro ⟨bucket, hmem, rfl⟩
    obtain ⟨buckets, hbuckets, hone, hbucket⟩ := mem_eachBucket.mp hmem
    rw [getElem?_map, Option.map_eq_some_iff] at hbuckets
    obtain ⟨i, hi, rfl⟩ := hbuckets
    obtain ⟨hlt, hvalue⟩ := List.getElem?_eq_some_iff.mp hi
    rw [getElem_range] at hvalue
    rw [length_range] at hlt
    have hband : bucket.1 ≤ config.bands := by omega
    rw [← hvalue, Nat.sub_add_cancel hone] at hbucket
    have hkey := (mem_foldlM_readField htables hband bucket.2.1).mp
      (List.mem_map.mpr ⟨_, hbucket, rfl⟩)
    exact getItem_isSome_iff.mpr (hkey.resolve_left not_mem_nil)
  · intro hsome
    obtain ⟨band, bucket, hone, hband, rfl⟩ := hs.packed place item field hsome
    have hkey := (mem_foldlM_readField htables hband bucket).mpr
      (Or.inr (getItem_isSome_iff.mp hsome))
    obtain ⟨entry, hentry, rfl⟩ := List.mem_map.mp hkey
    refine ⟨(band, entry), mem_eachBucket.mpr ⟨tables band, ?_, hone, hentry⟩, rfl⟩
    rw [getElem?_map, getElem?_range (by omega), Option.map_some, Nat.sub_add_cancel hone]

theorem exists_getFrequencies (hs : WellFormed config s) (place : Label × Label) (item : Label) :
    ∃ frequencies, getFrequencies config s place.1 place.2 item = some frequencies := by
  obtain ⟨tables, htables⟩ := exists_foldlM_readField
    (fun field hfield ↦ hs.packed place item field (getItem_isSome_iff.mpr hfield)) fun _ ↦ []
  refine ⟨(List.range config.bands).map fun i ↦ tables (i + 1), ?_⟩
  rw [getFrequencies, htables, Option.map_some]

theorem sets_foldl_modifySet {place : Label × Label} {item : Label} {timestamp : ℤ}
    {frequencies : Frequencies} {f : List Label → List Label} (hf : ∀ set, f (f set) = f set)
    (h : getFrequencies config s place.1 place.2 item = some frequencies) (hs : WellFormed config s)
    (hreaches : MembersIn config (window config timestamp) s)
    (hfixed : ∀ set, item ∉ set → f set = set)
    (place' : Label × Label) (field : List Char) (interval : ℤ) :
    (eachBucket frequencies).foldl (fun sets bucket ↦
      (window config timestamp).foldl (fun sets i ↦ modifySet f sets
        (getBucketMembershipKey config place.1 place.2
          (packFrequencyCoordinate bucket.1 bucket.2.1) i)) sets) s.sets
      (getBucketMembershipKey config place'.1 place'.2 field interval) =
    if place' = place then
      f (s.sets (getBucketMembershipKey config place'.1 place'.2 field interval))
    else s.sets (getBucketMembershipKey config place'.1 place'.2 field interval) := by
  have hfold : (eachBucket frequencies).foldl (fun sets bucket ↦
      (window config timestamp).foldl (fun sets i ↦ modifySet f sets
        (getBucketMembershipKey config place.1 place.2
          (packFrequencyCoordinate bucket.1 bucket.2.1) i)) sets) s.sets =
      ((eachBucket frequencies).flatMap fun bucket ↦ (window config timestamp).map
        (getBucketMembershipKey config place.1 place.2
          (packFrequencyCoordinate bucket.1 bucket.2.1))).foldl (modifySet f) s.sets := by
    rw [foldl_flatMap]
    simp only [foldl_map]
  rw [hfold, foldl_modifySet hf]
  by_cases hplace : place' = place
  · rw [if_pos hplace]
    split
    next => rfl
    next hmem =>
      -- A set that is not reached does not have the item.
      refine (hfixed _ fun hitem ↦ hmem ?_).symm
      rw [hplace] at hitem ⊢
      have hfrequency := (hs.consistent place item field).mp ⟨interval, hitem⟩
      obtain ⟨bucket, hbucket, hpack⟩ := (mem_getFrequencies place h hs).mpr hfrequency
      refine mem_flatMap.mpr ⟨bucket, hbucket, List.mem_map.mpr ⟨interval, ?_, ?_⟩⟩
      · exact hreaches place item field interval hitem
      · rw [hpack]
  · rw [if_neg hplace, if_neg]
    intro hmem
    obtain ⟨bucket, -, hkey⟩ := mem_flatMap.mp hmem
    obtain ⟨i, -, heq⟩ := List.mem_map.mp hkey
    obtain ⟨hscope, hindex, -⟩ := getBucketMembershipKey_inj.mp heq
    exact hplace (Prod.ext hscope.symm hindex.symm)

end Reading

/-! ### Moving and removing -/

section Moving

variable {s : Store} {place : Label × Label} {key destination : Label} {timestamp : ℤ}
  {frequencies : Frequencies}

def mergeSource (config : IndexConfig) (timestamp : ℤ) (place : Label × Label)
    (key destination : Label) (frequencies : Frequencies) (s : Store) : Store :=
  { mergeFrequencies config s place.1 place.2 key destination with
    sets := (eachBucket frequencies).foldl (fun sets bucket ↦
      TimeSeriesSet.swap config (getBucketMembershipKey config place.1 place.2
        (packFrequencyCoordinate bucket.1 bucket.2.1)) timestamp sets key destination) s.sets }

def deleteSource (config : IndexConfig) (timestamp : ℤ) (place : Label × Label) (key : Label)
    (frequencies : Frequencies) (s : Store) : Store :=
  { clearFrequencies config s place.1 place.2 key with
    sets := (eachBucket frequencies).foldl (fun sets bucket ↦
      TimeSeriesSet.remove config (getBucketMembershipKey config place.1 place.2
        (packFrequencyCoordinate bucket.1 bucket.2.1)) timestamp sets key) s.sets }

section

variable (hs : WellFormed config s)

include hs

theorem frequency_mergeFrequencies (place' : Label × Label) (item : Label) (field : List Char) :
    getItem ((mergeFrequencies config s place.1 place.2 key destination).hashes
      (getFrequencyKey config place'.1 place'.2 item)) field =
      ((contents config s).move place key destination).frequency place' item field := by
  have hkeys : ∀ other, (place' = place ∧ item = other) ↔
      getFrequencyKey config place'.1 place'.2 item =
        getFrequencyKey config place.1 place.2 other := by
    intro other
    rw [getFrequencyKey_inj, Prod.ext_iff, and_assoc]
  show _ = if place' = place ∧ item = key then none
    else if place' = place ∧ item = destination then addCounts (getItem (s.hashes _) field)
      (getItem (s.hashes (getFrequencyKey config place'.1 place'.2 key)) field)
    else getItem (s.hashes _) field
  simp only [mergeFrequencies]
  by_cases hempty : s.hashes (getFrequencyKey config place.1 place.2 key) = []
  · rw [if_pos hempty]
    by_cases hsource : place' = place ∧ item = key
    · rw [if_pos hsource, hsource.1, hsource.2, hempty]
      rfl
    · rw [if_neg hsource]
      split
      next hdestination =>
        rw [hdestination.1, hempty]
        exact (Library.addCounts_none _).symm
      next => rfl
  · rw [if_neg hempty]
    dsimp only
    by_cases hsource : place' = place ∧ item = key
    · rw [if_pos hsource, (hkeys key).mp hsource, update_self]
      rfl
    · rw [if_neg hsource, update_of_ne fun heq ↦ hsource ((hkeys key).mpr heq)]
      by_cases hdestination : place' = place ∧ item = destination
      · rw [if_pos hdestination, (hkeys destination).mp hdestination, update_self, hdestination.1,
          ← total_occurrencesOf (hs.nodup (getFrequencyKey config place.1 place.2 key)),
          ← getItem_foldl_hincrby, occurrencesOf, foldl_map]
      · rw [if_neg hdestination, update_of_ne fun heq ↦ hdestination ((hkeys destination).mpr heq)]

theorem contents_mergeSource (hreaches : MembersIn config (window config timestamp) s)
    (hne : key ≠ destination) (h : getFrequencies config s place.1 place.2 key = some frequencies) :
    contents config (mergeSource config timestamp place key destination frequencies s) =
      (contents config s).move place key destination := by
  ext place' item field interval
  · exact iff_of_eq (congrArg (· = some interval) (frequency_mergeFrequencies hs place' item field))
  · have hsets := sets_foldl_modifySet (swapMember_swapMember hne) h hs hreaches
      (fun set hset ↦ if_neg hset) place' field interval
    refine (iff_of_eq (congrArg (item ∈ ·) hsets)).trans ?_
    show _ ↔ (if place' = place ∧ item = key then False
      else if place' = place ∧ item = destination then item ∈ s.sets _ ∨ key ∈ s.sets _
      else item ∈ s.sets _)
    by_cases hplace : place' = place
    · simp only [hplace, if_true, true_and]
      exact mem_swapMember hne
    · simp only [hplace, if_false, false_and]

theorem contents_deleteSource (hreaches : MembersIn config (window config timestamp) s)
    (h : getFrequencies config s place.1 place.2 key = some frequencies) :
    contents config (deleteSource config timestamp place key frequencies s) =
      (contents config s).erase place key := by
  ext place' item field interval
  · show getItem (Function.update s.hashes _ [] _) field = _ ↔
      (if place' = place ∧ item = key then none else _) = some interval
    by_cases hkey : place' = place ∧ item = key
    · rw [if_pos hkey, hkey.1, hkey.2, update_self, Library.getItem_nil]
    · rw [if_neg hkey, update_of_ne]
      · rfl
      · intro heq
        obtain ⟨hscope, hindex, hitem⟩ := getFrequencyKey_inj.mp heq
        exact hkey ⟨Prod.ext hscope hindex, hitem⟩
  · have hsets := sets_foldl_modifySet (srem_srem key) h hs hreaches
      (fun set hset ↦ filter_eq_self.mpr fun x hx ↦
        decide_eq_true fun heq ↦ hset (heq ▸ hx)) place' field interval
    refine (iff_of_eq (congrArg (item ∈ ·) hsets)).trans ?_
    show _ ↔ (if place' = place ∧ item = key then False else item ∈ s.sets _)
    by_cases hplace : place' = place
    · simp only [hplace, if_true, true_and, mem_srem]
      by_cases hitem : item = key
      · simp [hitem]
      · simp [hitem]
    · simp only [hplace, if_false, false_and]

theorem WellFormed.mergeSource (hreaches : MembersIn config (window config timestamp) s)
    (hne : key ≠ destination) (h : getFrequencies config s place.1 place.2 key = some frequencies) :
    WellFormed config (mergeSource config timestamp place key destination frequencies s) := by
  have hcontents := contents_mergeSource hs hreaches hne h
  refine ⟨hcontents ▸ hs.consistent.move place key destination, fun other ↦ ?_, ?_⟩
  · show (((mergeFrequencies config s place.1 place.2 key destination).hashes other).map
      Prod.fst).Nodup
    rw [mergeFrequencies]
    split
    next => exact hs.nodup other
    next =>
      dsimp only
      by_cases hkey : other = getFrequencyKey config place.1 place.2 key
      · rw [hkey, update_self]
        exact nodup_nil
      · rw [update_of_ne hkey]
        by_cases hdestination : other = getFrequencyKey config place.1 place.2 destination
        · rw [hdestination, update_self]
          have hnodup := nodup_keys_foldl_hincrby (hs.nodup
            (getFrequencyKey config place.1 place.2 destination))
            (occurrencesOf (s.hashes (getFrequencyKey config place.1 place.2 key)))
          rwa [occurrencesOf, foldl_map] at hnodup
        · rw [update_of_ne hdestination]
          exact hs.nodup other
  · rw [hcontents]
    intro place' item field hsome
    have hsome' : (if place' = place ∧ item = key then none
      else if place' = place ∧ item = destination then
        addCounts ((contents config s).frequency place' item field)
          ((contents config s).frequency place' key field)
      else (contents config s).frequency place' item field).isSome := hsome
    split at hsome'
    next => exact absurd hsome' Bool.false_ne_true
    next =>
      split at hsome'
      next =>
        rcases (Library.isSome_addCounts _ _).mp hsome' with hitem | hkey
        · exact hs.packed place' item field hitem
        · exact hs.packed place' key field hkey
      next => exact hs.packed place' item field hsome'

theorem WellFormed.deleteSource (hreaches : MembersIn config (window config timestamp) s)
    (h : getFrequencies config s place.1 place.2 key = some frequencies) :
    WellFormed config (deleteSource config timestamp place key frequencies s) := by
  have hcontents := contents_deleteSource hs hreaches h
  refine ⟨hcontents ▸ hs.consistent.erase place key, fun other ↦ ?_, ?_⟩
  · show ((Function.update s.hashes (getFrequencyKey config place.1 place.2 key) [] other).map
      Prod.fst).Nodup
    by_cases hkey : other = getFrequencyKey config place.1 place.2 key
    · rw [hkey, update_self]
      exact nodup_nil
    · rw [update_of_ne hkey]
      exact hs.nodup other
  · rw [hcontents]
    intro place' item field hsome
    have hsome' : (if place' = place ∧ item = key then none
      else (contents config s).frequency place' item field).isSome := hsome
    split at hsome'
    next => exact absurd hsome' Bool.false_ne_true
    next => exact hs.packed place' item field hsome'

end

end Moving

end Sentry.Similarity
