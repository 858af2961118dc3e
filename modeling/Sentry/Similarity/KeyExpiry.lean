import Sentry.Similarity.ExpiringKeys
import Sentry.Similarity.IndexConsistency
import Mathlib.Tactic.Linarith

/-!
# The keys of the index expire

After every command a set for an interval expires at the end of its retention at the latest, and a
hash expires, as long as no command imports a member into a set that does not exist (`KeysExpire`):
importing sets no time, since `SADD` never adds more than one. So the keys expire throughout a run
if and only if the run imports into sets that exist (`keysExpire_iff`).
-/

namespace Sentry.Similarity.ExpiringKeys

open List Function
open Library (VolatileKey)

variable {config : IndexConfig} {now : ℤ}

def InRetention (config : IndexConfig) (index time : ℤ) : Prop :=
  time ≤ endOfRetention config index * 1000

def SetsExpire (config : IndexConfig) (sets : List Char → VolatileKey Label) : Prop :=
  ∀ scope index coordinate i,
    (sets (getBucketMembershipKey config scope index coordinate i)).ExpiresAt (InRetention config i)

def HashesExpire (hashes : List Char → VolatileKey (List Char × ℤ)) : Prop :=
  ∀ key, (hashes key).ExpiresAt fun _ ↦ True

/-- Every set expires at the end of its retention at the latest, and every hash expires. -/
structure KeysExpire (config : IndexConfig) (s : VolatileStore) : Prop where
  sets : SetsExpire config s.sets
  hashes : HashesExpire s.hashes

def importedKeys (config : IndexConfig) (scope : Label) (source : Label × Label × Exported) :
    List (List Char) :=
  match source.2.2 with
  | none => []
  | some (data, _) => (imported data).flatMap fun occurrence ↦
      occurrence.intervals.map (getBucketMembershipKey config scope source.1 occurrence.field)

/-- Every set into which a command imports exists. -/
def ImportsIntoSets (config : IndexConfig) (s : ExpiringState) (event : ℤ × Command config) :
    Prop :=
  match event.2 with
  | .importData _ scope entries => ∀ source ∈ sourcesOf s.exported entries,
      ∀ key ∈ importedKeys config scope source, ((s.store.live event.1).sets key).items ≠ []
  | _ => True

section Sets

variable {P : ℤ → Prop} {set : VolatileKey Label} {i : ℤ}

theorem expiresAt_srem (h : set.ExpiresAt P) (member : Label) :
    (srem member set).2.ExpiresAt P := by
  unfold srem
  split
  next =>
    refine h.write fun hitems hempty ↦ hitems ?_
    rw [hempty]
    rfl
  next => exact h

theorem expiresAt_added (h : set.ExpiresAt (InRetention config i)) (member : Label) :
    (if (sadd member set).1 > 0 then
      expireat now (endOfRetention config i) (sadd member set).2
    else (sadd member set).2).ExpiresAt (InRetention config i) := by
  by_cases hmember : member ∈ set.items
  · rw [sadd, if_pos hmember, if_neg (lt_irrefl 0)]
    exact h
  · rw [sadd, if_neg hmember, if_pos Nat.one_pos]
    exact VolatileKey.expiresAt_expireAt _ _ le_rfl

theorem expiresAt_swapMember (h : set.ExpiresAt (InRetention config i)) (old new : Label) :
    (swapMember config now i old new set).ExpiresAt (InRetention config i) := by
  have hremoved := expiresAt_srem h old
  unfold swapMember
  dsimp only
  split
  next => exact expiresAt_added hremoved new
  next => exact hremoved

/-- `SADD` with one member never adds more than one. -/
theorem importMember_eq (i : ℤ) (member : Label) (set : VolatileKey Label) :
    importMember config now i member set = (sadd member set).2 := by
  have hle : ¬ (sadd member set).1 > 1 := by
    unfold sadd
    split <;> simp
  exact if_neg hle

end Sets

variable {sets : List Char → VolatileKey Label}

section

variable (hs : SetsExpire config sets) (scope index : Label) (coordinate : List Char)

include hs scope index coordinate

theorem SetsExpire.modifySet {i : ℤ} {f : VolatileKey Label → VolatileKey Label}
    (hf : ∀ set, set.ExpiresAt (InRetention config i) → (f set).ExpiresAt (InRetention config i)) :
    SetsExpire config
      (modifySet f sets (getBucketMembershipKey config scope index coordinate i)) := by
  intro scope' index' coordinate' i'
  by_cases hkey : getBucketMembershipKey config scope' index' coordinate' i' =
      getBucketMembershipKey config scope index coordinate i
  · obtain ⟨-, -, -, rfl⟩ := getBucketMembershipKey_inj.mp hkey
    rw [ExpiringKeys.modifySet, hkey, update_self]
    exact hf _ (hs scope index coordinate i')
  · rw [ExpiringKeys.modifySet, update_of_ne hkey]
    exact hs scope' index' coordinate' i'

theorem SetsExpire.add (timestamp : ℤ) (member : Label) :
    SetsExpire config (TimeSeriesSet.add config now
      (getBucketMembershipKey config scope index coordinate) timestamp sets member) :=
  hs.modifySet scope index coordinate fun _ h ↦ expiresAt_added h member

theorem SetsExpire.remove (timestamp : ℤ) (member : Label) :
    SetsExpire config (TimeSeriesSet.remove config
      (getBucketMembershipKey config scope index coordinate) timestamp sets member) :=
  List.foldlRecOn _ _ hs fun _ hsets _ _ ↦
    hsets.modifySet scope index coordinate fun _ h ↦ expiresAt_srem h member

theorem SetsExpire.swap (timestamp : ℤ) (old new : Label) :
    SetsExpire config (TimeSeriesSet.swap config now
      (getBucketMembershipKey config scope index coordinate) timestamp sets old new) :=
  List.foldlRecOn _ _ hs fun _ hsets _ _ ↦
    hsets.modifySet scope index coordinate fun _ h ↦ expiresAt_swapMember h old new

end

theorem HashesExpire.update {hashes : List Char → VolatileKey (List Char × ℤ)}
    (hs : HashesExpire hashes) (key : List Char) {hash : VolatileKey (List Char × ℤ)}
    (hhash : hash.ExpiresAt fun _ ↦ True) : HashesExpire (Function.update hashes key hash) := by
  intro key'
  by_cases hkey : key' = key
  · rw [hkey, update_self]
    exact hhash
  · rw [update_of_ne hkey]
    exact hs key'

variable {s : VolatileStore}

theorem HashesExpire.setFrequencies (hs : HashesExpire s.hashes) (timestamp : ℤ)
    (scope index item : Label) (frequencies : Frequencies) (expiration : Option ℤ) :
    HashesExpire (setFrequencies config now timestamp s scope index item frequencies
      expiration).hashes :=
  hs.update _ (VolatileKey.expiresAt_expireAt _ _ trivial)

theorem ttl_nonneg {hash : VolatileKey (List Char × ℤ)} (h : hash.ExpiresAt fun _ ↦ True)
    (hitems : hash.items ≠ []) : 0 ≤ ttl now hash := by
  obtain ⟨time, htime, -⟩ := h hitems
  have hexpiry : hash.expiry = some time := htime
  rw [ttl, if_neg hitems, hexpiry]
  exact Int.ediv_nonneg (by positivity) (by norm_num)

theorem exists_mergeFrequencies (hs : HashesExpire s.hashes) (scope index : Label)
    {source destination : Label} (hne : source ≠ destination) :
    ∃ merged, mergeFrequencies config now s scope index source destination = .ok merged ∧
      merged.sets = s.sets ∧ HashesExpire merged.hashes := by
  unfold mergeFrequencies
  dsimp only
  split
  next => exact ⟨s, rfl, rfl, hs⟩
  next hitems =>
    have hkey : getFrequencyKey config scope index source ≠
        getFrequencyKey config scope index destination :=
      fun h ↦ hne (getFrequencyKey_inj.mp h).2.2
    rw [update_of_ne hkey, if_pos (ttl_nonneg (hs _) hitems)]
    refine ⟨_, rfl, rfl, ?_⟩
    rw [update_idem]
    exact (hs.update _ (VolatileKey.expiresAt_expireAt _ _ trivial)).update _
      VolatileKey.expiresAt_empty

theorem lastStore_foldlM {α : Type} {I : VolatileStore → Prop}
    {f : VolatileStore → α → Except VolatileStore VolatileStore} {sources : List α}
    (hf : ∀ s, I s → ∀ source ∈ sources, I (lastStore (f s source))) (hs : I s) :
    I (lastStore (sources.foldlM f s)) := by
  induction sources generalizing s with
  | nil => exact hs
  | cons source sources ih =>
    have hsource := hf s hs source mem_cons_self
    rw [foldlM_cons]
    cases hresult : f s source with
    | error failed =>
      rw [hresult] at hsource
      exact hsource
    | ok next =>
      rw [hresult] at hsource
      exact ih (fun s hs source hmem ↦ hf s hs source (mem_cons_of_mem _ hmem)) hsource

section

variable (hs : KeysExpire config s)

include hs

theorem KeysExpire.live (now : ℤ) : KeysExpire config (s.live now) :=
  ⟨fun scope index coordinate i ↦ (hs.sets scope index coordinate i).live now,
    fun key ↦ (hs.hashes key).live now⟩

theorem KeysExpire.record (timestamp : ℤ) (scope key : Label)
    (signatures : List (Signature config)) :
    KeysExpire config (record config now timestamp scope key signatures s) := by
  refine List.foldlRecOn _ _ hs fun s hs signature _ ↦ ⟨?_, ?_⟩
  · exact List.foldlRecOn _ _ hs.sets fun sets hsets bucket _ ↦ hsets.add _ _ _ _ _
  · exact hs.hashes.setFrequencies timestamp scope signature.index key signature.frequencies none

theorem KeysExpire.mergeSource (timestamp : ℤ) (scope : Label)
    {destination : Label} {source : Label × Label} (hne : source.2 ≠ destination) :
    KeysExpire config
      (lastStore (mergeSource config now timestamp scope destination s source)) := by
  unfold ExpiringKeys.mergeSource
  split
  next => exact hs
  next frequencies _ =>
    obtain ⟨merged, hmerged, hsets, hhashes⟩ :=
      @exists_mergeFrequencies config now s hs.hashes scope source.1 source.2 destination hne
    rw [hmerged]
    refine ⟨?_, hhashes⟩
    have hstart : SetsExpire config merged.sets := hsets ▸ hs.sets
    exact List.foldlRecOn _ _ hstart fun sets hsets bucket _ ↦ hsets.swap _ _ _ _ _ _

theorem KeysExpire.merge (timestamp : ℤ) (scope destination : Label)
    (sources : List (Label × Label)) :
    KeysExpire config (merge config now timestamp scope destination sources s) := by
  unfold ExpiringKeys.merge
  split
  next => exact hs
  next hnone =>
    refine lastStore_foldlM (fun s hs source hsource ↦ hs.mergeSource timestamp scope ?_) hs
    exact fun heq ↦ hnone ⟨source, hsource, heq⟩

theorem KeysExpire.delete (timestamp : ℤ) (scope : Label) (sources : List (Label × Label)) :
    KeysExpire config (delete config timestamp scope sources s) := by
  refine lastStore_foldlM (fun s hs source _ ↦ ?_) hs
  unfold deleteSource
  split
  next => exact hs
  next frequencies _ =>
    refine ⟨?_, hs.hashes.update _ VolatileKey.expiresAt_empty⟩
    exact List.foldlRecOn _ _ hs.sets fun sets hsets bucket _ ↦ hsets.remove _ _ _ _ _

end

/-- Some keys get a member; none of the keys gets another time. -/
structure Grown (keys : List (List Char)) (sets sets' : List Char → VolatileKey Label) : Prop where
  expiry : ∀ key, (sets' key).expiry = (sets key).expiry
  items : ∀ key, (sets' key).items ≠ [] ↔ (sets key).items ≠ [] ∨ key ∈ keys

theorem Grown.refl (sets : List Char → VolatileKey Label) : Grown [] sets sets :=
  ⟨fun _ ↦ rfl, fun key ↦ by simp⟩

theorem Grown.append {keys keys' : List (List Char)} {sets' sets'' : List Char → VolatileKey Label}
    (h : Grown keys sets sets') (h' : Grown keys' sets' sets'') :
    Grown (keys ++ keys') sets sets'' := by
  refine ⟨fun key ↦ (h'.expiry key).trans (h.expiry key), fun key ↦ ?_⟩
  rw [h'.items, h.items, mem_append, or_assoc]

theorem items_sadd (member : Label) (set : VolatileKey Label) : (sadd member set).2.items ≠ [] := by
  unfold sadd
  split
  next h => exact ne_nil_of_mem h
  next => simp

theorem expiry_sadd (member : Label) (set : VolatileKey Label) :
    (sadd member set).2.expiry = set.expiry := by
  unfold sadd
  split
  next => rfl
  next => exact VolatileKey.expiry_write set (by simp)

theorem grown_importMember (sets : List Char → VolatileKey Label) (i : ℤ) (member : Label)
    (key : List Char) :
    Grown [key] sets (modifySet (importMember config now i member) sets key) := by
  rw [show importMember config now i member = fun set ↦ (sadd member set).2 from
    funext (importMember_eq i member)]
  constructor
  · intro key'
    by_cases hkey : key' = key
    · rw [modifySet, hkey, update_self, expiry_sadd]
    · rw [modifySet, update_of_ne hkey]
  · intro key'
    by_cases hkey : key' = key
    · rw [modifySet, hkey, update_self]
      simp [items_sadd]
    · rw [modifySet, update_of_ne hkey]
      simp [hkey]

theorem grown_foldl {α : Type} {steps : List α} {keys : α → List (List Char)}
    {f : (List Char → VolatileKey Label) → α → List Char → VolatileKey Label}
    (hf : ∀ sets step, Grown (keys step) sets (f sets step))
    (sets : List Char → VolatileKey Label) :
    Grown (steps.flatMap keys) sets (steps.foldl f sets) := by
  induction steps generalizing sets with
  | nil => exact Grown.refl sets
  | cons step steps ih =>
    exact (hf sets step).append (ih _)

theorem grown_importEntry (timestamp : ℤ) (scope : Label) (s : VolatileStore)
    (source : Label × Label × Exported) :
    Grown (importedKeys config scope source) s.sets
      (importEntry config now timestamp scope s source).sets := by
  obtain ⟨index, member, exported⟩ := source
  cases exported with
  | none => exact Grown.refl _
  | some exported =>
    show Grown ((imported exported.1).flatMap fun occurrence ↦ occurrence.intervals.map
      (getBucketMembershipKey config scope index occurrence.field)) _ _
    rw [imported, flatMap_map]
    refine grown_foldl (fun sets bucket ↦ ?_) s.sets
    rw [map_eq_flatMap]
    exact grown_foldl (fun sets i ↦ grown_importMember sets i member _) sets

theorem grown_import (timestamp : ℤ) (scope : Label) (sources : List (Label × Label × Exported))
    (s : VolatileStore) :
    Grown (sources.flatMap (importedKeys config scope)) s.sets
      (sources.foldl (importEntry config now timestamp scope) s).sets := by
  induction sources generalizing s with
  | nil => exact Grown.refl _
  | cons source sources ih =>
    exact (grown_importEntry timestamp scope s source).append (ih _)

theorem HashesExpire.importEntries (hs : HashesExpire s.hashes) (timestamp : ℤ) (scope : Label)
    (sources : List (Label × Label × Exported)) :
    HashesExpire (sources.foldl (importEntry config now timestamp scope) s).hashes := by
  refine List.foldlRecOn (motive := fun s : VolatileStore ↦ HashesExpire s.hashes) _ _ hs
    fun s hs source _ ↦ ?_
  unfold importEntry
  split
  next => exact hs
  next data time _ =>
    refine HashesExpire.setFrequencies ?_ timestamp scope source.1 source.2.1 _ _
    exact hs

theorem keysExpire_import_iff (hs : KeysExpire config s) (timestamp : ℤ) (scope : Label)
    (sources : List (Label × Label × Exported)) :
    KeysExpire config (sources.foldl (importEntry config now timestamp scope) s) ↔
      ∀ source ∈ sources, ∀ key ∈ importedKeys config scope source, (s.sets key).items ≠ [] := by
  have hgrown : Grown (sources.flatMap (importedKeys config scope)) s.sets
      (sources.foldl (importEntry config now timestamp scope) s).sets :=
    grown_import timestamp scope sources s
  constructor
  · intro hexpire source hsource key hkey hempty
    have hmem : key ∈ sources.flatMap (importedKeys config scope) :=
      mem_flatMap.mpr ⟨source, hsource, hkey⟩
    have hnone : ((sources.foldl (importEntry config now timestamp scope) s).sets key).expiry =
        none := (hgrown.expiry key).trans ((s.sets key).absent hempty)
    have hitems := (hgrown.items key).mpr (Or.inr hmem)
    obtain ⟨index, coordinate, i, rfl⟩ : ∃ index coordinate i,
        key = getBucketMembershipKey config scope index coordinate i := by
      unfold importedKeys at hkey
      split at hkey
      next => exact absurd hkey not_mem_nil
      next =>
        obtain ⟨occurrence, -, hinterval⟩ := mem_flatMap.mp hkey
        obtain ⟨i, -, rfl⟩ := List.mem_map.mp hinterval
        exact ⟨_, _, _, rfl⟩
    exact VolatileKey.not_expiresAt hitems hnone (hexpire.sets scope index coordinate i)
  · intro hexist
    refine ⟨fun scope' index coordinate i hitems ↦ ?_,
      hs.hashes.importEntries timestamp scope sources⟩
    rw [hgrown.expiry]
    refine hs.sets scope' index coordinate i ?_
    rcases (hgrown.items _).mp hitems with hbefore | hmem
    · exact hbefore
    · obtain ⟨source, hsource, hkey⟩ := mem_flatMap.mp hmem
      exact hexist source hsource _ hkey

theorem keysExpire_step_iff (s : ExpiringState) (event : ℤ × Command config)
    (hs : KeysExpire config s.store) :
    KeysExpire config ((expiringIndex config).step s event).store ↔
      ImportsIntoSets config s event := by
  obtain ⟨now, command⟩ := event
  have hlive := hs.live now
  cases command with
  | record timestamp scope key signatures =>
    exact iff_of_true (hlive.record timestamp scope key signatures) trivial
  | merge timestamp scope destination sources =>
    exact iff_of_true (hlive.merge timestamp scope destination sources) trivial
  | delete timestamp scope sources =>
    exact iff_of_true (hlive.delete timestamp scope sources) trivial
  | exportData timestamp scope entries =>
    refine iff_of_true ?_ trivial
    show KeysExpire config (runCommand config now { s with store := s.store.live now }
      (.exportData timestamp scope entries)).store
    rw [runCommand]
    split
    all_goals exact hlive
  | importData timestamp scope entries =>
    exact keysExpire_import_iff hlive timestamp scope (sourcesOf s.exported entries)

/-- Every key expires throughout a run if and only if the run imports into sets that exist. -/
theorem keysExpire_iff (config : IndexConfig) (commands : List (ℤ × Command config)) :
    (∀ first, first <+: commands →
      KeysExpire config ((expiringIndex config).run first).store) ↔
      (expiringIndex config).EveryStep (ImportsIntoSets config) (expiringIndex config).init
        commands :=
  (expiringIndex config).forall_prefix_property_iff_everyStep
    (I := fun s ↦ KeysExpire config s.store) (fun _ h ↦ h)
    (fun s event hs h ↦ (keysExpire_step_iff s event hs).mpr h)
    (fun s event hs h ↦ (keysExpire_step_iff s event hs).mp h)
    ⟨fun _ _ _ _ ↦ VolatileKey.expiresAt_empty, fun _ ↦ VolatileKey.expiresAt_empty⟩ commands

/-- A group that is exported and imported for another one. -/
def exportAndImport : List (ℤ × Command oneBand) :=
  let project := letter '1' (by decide)
  let index := oneBucket.index
  let group := letter '3' (by decide)
  [(5000, .record 5 project group [oneBucket]),
    (6000, .exportData 6 project [(index, group)]),
    (7000, .delete 7 project [(index, group)]),
    (8000, .importData 8 project [(index, group, 0)])]

/-- The set in which the group was is created again and does not expire. -/
theorem exportAndImport_not_keysExpire :
    ¬ ∀ first, first <+: exportAndImport →
      KeysExpire oneBand ((expiringIndex oneBand).run first).store := by
  intro h
  have hset := (h exportAndImport (prefix_refl _)).sets (letter '1' (by decide)) oneBucket.index
    (packFrequencyCoordinate 1 ['x']) 0
  exact VolatileKey.not_expiresAt (by decide +kernel) (by decide +kernel) hset

end Sentry.Similarity.ExpiringKeys
