import Mathlib.Data.Int.Notation
import Mathlib.Data.List.Basic
import Mathlib.Data.List.Induction

/-!
# The order of code mappings

`get_sorted_code_mapping_configs` of `integrations/utils/code_mapping.py` inserts each config before
the first one that it goes before by a condition on the two, which puts absolute roots before
relative ones of either kind, and a config made by a user that meets it with no other to the front.
The result has the documented order exactly if no config comes to such a place wrongly
(`sorted_iff`).
-/

namespace Sentry.Integrations

open List

/-- `RepositoryProjectPathConfig`, with the fields that matter for the order. -/
structure RepositoryProjectPathConfig where
  id : ℤ
  stackRoot : List Char
  automaticallyGenerated : Bool
  deriving DecidableEq

/-- `stack_root.startswith("/")` -/
def RepositoryProjectPathConfig.isAbsolute (config : RepositoryProjectPathConfig) : Bool :=
  ['/'].isPrefixOf config.stackRoot

variable (sortedConfig config : RepositoryProjectPathConfig)

def insertsBefore : Bool :=
  (sortedConfig.automaticallyGenerated && !config.automaticallyGenerated) ||
    (!sortedConfig.isAbsolute && config.isAbsolute) ||
    (sortedConfig.automaticallyGenerated == config.automaticallyGenerated &&
      sortedConfig.stackRoot.isPrefixOf config.stackRoot)

/-- The inner loop: the list with the config, `none` if it is not inserted. -/
def insertBeforeFirst : List RepositoryProjectPathConfig → Option (List RepositoryProjectPathConfig)
  | [] => none
  | sortedConfig :: rest =>
    if insertsBefore sortedConfig config then some (config :: sortedConfig :: rest)
    else (insertBeforeFirst rest).map (sortedConfig :: ·)

def insertConfig (sortedConfigs : List RepositoryProjectPathConfig) :
    List RepositoryProjectPathConfig :=
  (insertBeforeFirst config sortedConfigs).getD
    (if config.automaticallyGenerated then sortedConfigs ++ [config] else config :: sortedConfigs)

/-- `get_sorted_code_mapping_configs` on the configs of the query. -/
def getSortedCodeMappingConfigs (configs : List RepositoryProjectPathConfig) :
    List RepositoryProjectPathConfig :=
  configs.foldl (fun sortedConfigs config ↦ insertConfig config sortedConfigs) []

/-- The first config has precedence: a user made it and not the second one, or they are of one kind
and its root is absolute and the second one is not, or its root properly extends the second one. -/
def Precedes (first second : RepositoryProjectPathConfig) : Prop :=
  (¬first.automaticallyGenerated ∧ second.automaticallyGenerated) ∨
    (first.automaticallyGenerated = second.automaticallyGenerated ∧
      ((first.isAbsolute ∧ ¬second.isAbsolute) ∨
        (second.stackRoot <+: first.stackRoot ∧ second.stackRoot ≠ first.stackRoot)))

/-- The configs in the order of their precedence. -/
def Sorted (configs : List RepositoryProjectPathConfig) : Prop :=
  configs.Pairwise fun first second ↦ ¬Precedes second first

/-- A config comes to its place after some others: a generated one with an absolute root where no
user made a relative one, one made by a user where it is inserted before another, or where none
precedes it. -/
def Placed (before : List RepositoryProjectPathConfig) : Prop :=
  if config.automaticallyGenerated then
    config.isAbsolute → ∀ other ∈ before, ¬other.automaticallyGenerated → other.isAbsolute
  else (∃ other ∈ before, insertsBefore other config) ∨ ∀ other ∈ before, ¬Precedes other config

variable {sortedConfig config} {other : RepositoryProjectPathConfig}
  {sortedConfigs : List RepositoryProjectPathConfig}

theorem insertsBefore_iff : insertsBefore sortedConfig config ↔
    (sortedConfig.automaticallyGenerated ∧ ¬config.automaticallyGenerated) ∨
      (¬sortedConfig.isAbsolute ∧ config.isAbsolute) ∨
      (sortedConfig.automaticallyGenerated = config.automaticallyGenerated ∧
        sortedConfig.stackRoot <+: config.stackRoot) := by
  simp [insertsBefore, or_assoc]

theorem isAbsolute_of_extended (h : other.stackRoot <+: config.stackRoot)
    (habsolute : other.isAbsolute) : config.isAbsolute := by
  simp only [RepositoryProjectPathConfig.isAbsolute, isPrefixOf_iff_prefix] at habsolute ⊢
  exact habsolute.trans h

theorem insertsBefore_of_precedes (h : Precedes config sortedConfig) :
    insertsBefore sortedConfig config := by
  rw [insertsBefore_iff]
  rcases h with ⟨huser, hgenerated⟩ | ⟨hkind, ⟨habsolute, hrelative⟩ | ⟨hextended, -⟩⟩
  · exact Or.inl ⟨hgenerated, huser⟩
  · exact Or.inr (Or.inl ⟨hrelative, habsolute⟩)
  · exact Or.inr (Or.inr ⟨hkind.symm, hextended⟩)

/-- What precedes a config that is inserted before another precedes the other, unless a generated
config is inserted before one that a user made. -/
theorem Precedes.of_insertsBefore (h : Precedes other config)
    (hinserts : insertsBefore sortedConfig config)
    (hkinds : config.automaticallyGenerated → sortedConfig.automaticallyGenerated) :
    Precedes other sortedConfig := by
  rw [insertsBefore_iff] at hinserts
  rcases h with ⟨huser, hgenerated⟩ | ⟨hkind, horder⟩
  · exact Or.inl ⟨huser, hkinds hgenerated⟩
  rcases hinserts with ⟨hsorted, huser⟩ | ⟨hrelative, habsolute⟩ | ⟨hsame, hextended⟩
  · exact Or.inl ⟨hkind ▸ huser, hsorted⟩
  · have hother : other.isAbsolute := by
      rcases horder with ⟨hother, -⟩ | ⟨hextended, -⟩
      · exact hother
      · exact isAbsolute_of_extended hextended habsolute
    by_cases hsame : other.automaticallyGenerated = sortedConfig.automaticallyGenerated
    · exact Or.inr ⟨hsame, Or.inl ⟨hother, hrelative⟩⟩
    · rw [hkind] at hsame
      refine Or.inl ?_
      rw [hkind]
      cases hconfig : config.automaticallyGenerated with
      | true => exact absurd (hconfig.trans (hkinds hconfig).symm) hsame
      | false =>
        rw [hconfig] at hsame
        exact ⟨Bool.false_ne_true, Bool.not_eq_false _ ▸ Ne.symm hsame⟩
  · refine Or.inr ⟨hkind.trans hsame.symm, ?_⟩
    rcases horder with ⟨hother, hrelative⟩ | ⟨hextends, hne⟩
    · exact Or.inl ⟨hother, fun hsorted ↦ hrelative (isAbsolute_of_extended hextended hsorted)⟩
    · refine Or.inr ⟨hextended.trans hextends, fun heq ↦ hne ?_⟩
      exact hextends.eq_of_length_le (heq ▸ hextended.length_le)

theorem not_precedes_self : ¬Precedes config config := by
  simp [Precedes]

theorem insertBeforeFirst_spec (sortedConfigs : List RepositoryProjectPathConfig) :
    (insertBeforeFirst config sortedConfigs = none ∧
      ∀ other ∈ sortedConfigs, ¬insertsBefore other config) ∨
    ∃ before first after, sortedConfigs = before ++ first :: after ∧
      insertBeforeFirst config sortedConfigs = some (before ++ config :: first :: after) ∧
      insertsBefore first config ∧ ∀ other ∈ before, ¬insertsBefore other config := by
  induction sortedConfigs with
  | nil => exact Or.inl ⟨rfl, by simp⟩
  | cons sortedConfig rest ih =>
    rw [insertBeforeFirst]
    by_cases h : insertsBefore sortedConfig config
    · rw [if_pos h]
      exact Or.inr ⟨[], sortedConfig, rest, rfl, rfl, h, by simp⟩
    · rw [if_neg h]
      rcases ih with ⟨hnone, hrest⟩ | ⟨before, first, after, rfl, hsome, hfirst, hbefore⟩
      · rw [hnone]
        exact Or.inl ⟨rfl, forall_mem_cons.mpr ⟨h, hrest⟩⟩
      · rw [hsome]
        exact Or.inr ⟨sortedConfig :: before, first, after, rfl, rfl, hfirst,
          forall_mem_cons.mpr ⟨h, hbefore⟩⟩

theorem sorted_insertConfig_iff :
    Sorted (insertConfig config sortedConfigs) ↔
      Sorted sortedConfigs ∧ Placed config sortedConfigs := by
  unfold insertConfig Placed
  rcases @insertBeforeFirst_spec config sortedConfigs with
    ⟨hnone, hnot⟩ | ⟨before, first, after, rfl, hsome, hfirst, hbefore⟩
  · rw [hnone, Option.getD_none]
    split_ifs with hgenerated
    · have hprecedes : ∀ other ∈ sortedConfigs, ¬Precedes config other := fun other hother h ↦
        hnot other hother (insertsBefore_of_precedes h)
      have hplaced : config.isAbsolute → ∀ other ∈ sortedConfigs,
          ¬other.automaticallyGenerated → other.isAbsolute := by
        intro habsolute other hother _
        by_contra hrelative
        exact hnot other hother (insertsBefore_iff.mpr (Or.inr (Or.inl ⟨hrelative, habsolute⟩)))
      simp only [Sorted, pairwise_append, pairwise_singleton, mem_singleton, forall_eq, true_and]
      exact and_congr_right fun _ ↦ iff_of_true hprecedes hplaced
    · rw [Sorted, pairwise_cons, and_comm]
      refine and_congr_right fun _ ↦ (or_iff_right ?_).symm
      rintro ⟨other, hother, hinserts⟩
      exact hnot other hother hinserts
  · rw [hsome, Option.getD_some]
    constructor
    · intro hsorted
      have hold : Sorted (before ++ first :: after) :=
        hsorted.sublist ((sublist_cons_self _ _).append_left _)
      refine ⟨hold, ?_⟩
      split_ifs with hgenerated
      · intro habsolute other hother huser
        by_contra hrelative
        have hinserts : insertsBefore other config :=
          insertsBefore_iff.mpr (Or.inr (Or.inl ⟨hrelative, habsolute⟩))
        have hafter := (pairwise_append.mp hsorted).2.1
        rw [pairwise_cons] at hafter
        rcases mem_append.mp hother with hother | hother
        · exact hbefore other hother hinserts
        · exact hafter.1 other hother (Or.inl ⟨huser, hgenerated⟩)
      · exact Or.inl ⟨first, by simp, hfirst⟩
    · rintro ⟨hold, hplaced⟩
      have hkinds : config.automaticallyGenerated → first.automaticallyGenerated := by
        intro hgenerated
        by_contra huser
        rw [if_pos hgenerated] at hplaced
        rcases insertsBefore_iff.mp hfirst with h | ⟨hrelative, habsolute⟩ | ⟨hsame, -⟩
        · exact h.2 hgenerated
        · exact hrelative (hplaced habsolute first (by simp) huser)
        · exact huser (hsame ▸ hgenerated)
      rw [Sorted, pairwise_append, pairwise_cons] at hold
      rw [Sorted, pairwise_append, pairwise_cons]
      refine ⟨hold.1, ⟨fun other hother hprecedes ↦ ?_, ?_⟩, fun other hother later hlater ↦ ?_⟩
      · have hfirst' := hprecedes.of_insertsBefore hfirst hkinds
        rcases mem_cons.mp hother with rfl | hother
        · exact not_precedes_self hfirst'
        · exact hold.2.1.1 other hother hfirst'
      · rw [pairwise_cons]
        exact hold.2.1
      · rcases mem_cons.mp hlater with rfl | hlater
        · exact fun h ↦ hbefore other hother (insertsBefore_of_precedes h)
        · exact hold.2.2 other hother later hlater

theorem insertConfig_perm : (insertConfig config sortedConfigs).Perm (config :: sortedConfigs) := by
  unfold insertConfig
  rcases @insertBeforeFirst_spec config sortedConfigs with
    ⟨hnone, -⟩ | ⟨before, first, after, rfl, hsome, -⟩
  · rw [hnone, Option.getD_none]
    split_ifs
    · exact perm_append_singleton _ _
    · exact .refl _
  · rw [hsome]
    exact perm_middle

theorem getSortedCodeMappingConfigs_concat (configs : List RepositoryProjectPathConfig) :
    getSortedCodeMappingConfigs (configs ++ [config]) =
      insertConfig config (getSortedCodeMappingConfigs configs) := foldl_append

theorem getSortedCodeMappingConfigs_perm (configs : List RepositoryProjectPathConfig) :
    (getSortedCodeMappingConfigs configs).Perm configs := by
  induction configs using reverseRecOn with
  | nil => exact .refl _
  | append_singleton configs config ih =>
    rw [getSortedCodeMappingConfigs_concat]
    exact insertConfig_perm.trans ((ih.cons config).trans (perm_append_singleton _ _).symm)

/-- The result is a permutation of the configs, and is in the documented order exactly if each of
them comes to its place. -/
theorem sorted_iff (configs : List RepositoryProjectPathConfig) :
    (getSortedCodeMappingConfigs configs).Perm configs ∧
        Sorted (getSortedCodeMappingConfigs configs) ↔
      ∀ before config after, configs = before ++ config :: after → Placed config before := by
  rw [and_iff_right (getSortedCodeMappingConfigs_perm configs)]
  induction configs using reverseRecOn with
  | nil => simp [getSortedCodeMappingConfigs, Sorted]
  | append_singleton configs config ih =>
    have hplaced : Placed config (getSortedCodeMappingConfigs configs) ↔ Placed config configs := by
      simp only [Placed, (getSortedCodeMappingConfigs_perm configs).mem_iff]
    rw [getSortedCodeMappingConfigs_concat, sorted_insertConfig_iff, ih, hplaced]
    constructor
    · rintro ⟨hall, hlast⟩ before other after heq
      rcases eq_nil_or_concat' after with rfl | ⟨after, last, rfl⟩
      · obtain ⟨rfl, hsingle⟩ := append_inj' heq rfl
        exact singleton_inj.mp hsingle ▸ hlast
      · refine hall before other after ?_
        rw [← cons_append, ← append_assoc] at heq
        exact (append_inj' heq rfl).1
    · intro hall
      exact ⟨fun before other after heq ↦ hall before other (after ++ [config]) (by simp [heq]),
        hall configs config [] rfl⟩

def mixedConfigs : List RepositoryProjectPathConfig :=
  [⟨1, "src/".toList, false⟩, ⟨2, "/src/".toList, true⟩]

theorem mixedConfigs_not_sorted :
    ¬∀ configs, (getSortedCodeMappingConfigs configs).Perm configs ∧
      Sorted (getSortedCodeMappingConfigs configs) := by
  intro h
  have hsorted := (h mixedConfigs).2
  have hresult : getSortedCodeMappingConfigs mixedConfigs =
      [⟨2, "/src/".toList, true⟩, ⟨1, "src/".toList, false⟩] := by decide +kernel
  rw [hresult, Sorted, pairwise_pair] at hsorted
  exact hsorted (Or.inl ⟨Bool.false_ne_true, rfl⟩)

end Sentry.Integrations
