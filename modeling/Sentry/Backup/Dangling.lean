import Sentry.Backup.Dependencies

/-!
# Dangling models

`resolve_dangling` walks along the foreign keys that are not nullable, and keeps its answers in the
`dangling` flags. The flags of the models on the way are provisional. Without a cycle the walk never
comes back to one of them, so every other flag is right (`Marked`), and a model is dangling if and
only if no way leads to a root or an excluded model.
-/

namespace Sentry.Backup

open List Function Option

inductive ResolveError
  | keyError (name : String)
  | runtimeError (message : String)
  | recursionError

/-- The `dangling` flags, by the names of the models. -/
abbrev Flags := String → Option Bool

variable {Model : Type*} {getModelName : Model → String} (deps : Dependencies getModelName)

def Dependencies.get (name : String) : Option (ModelRelations Model) :=
  deps.values.find? fun r ↦ getModelName r.model = name

variable (getModelName) in
/-- The loop over the foreign keys, and whether it ends at one that is not dangling. -/
def resolveKeys (resolve : String → Flags → Except ResolveError (Option Bool × Flags)) :
    List (ForeignField Model) → Flags → Except ResolveError (Bool × Flags)
  | [], dangling => .ok (false, dangling)
  | ff :: rest, dangling =>
    if ff.nullable then resolveKeys resolve rest dangling
    else
      match resolve (getModelName ff.model) dangling with
      | .error e => .error e
      | .ok (some true, dangling) => resolveKeys resolve rest dangling
      | .ok (_, dangling) => .ok (true, dangling)

def resolveDangling : ℕ → List String → String → Flags → Except ResolveError (Option Bool × Flags)
  | 0, _, _, _ => .error .recursionError
  | depth + 1, seen, modelName, dangling =>
    match deps.get modelName with
    | none => .error (.keyError modelName)
    | some relations =>
      let name := getModelName relations.model
      if name ∈ seen then
        .error (.runtimeError ("Circular dependency: " ++ name ++
          " cannot transitively reference itself"))
      else if relations.relocationScope = .inl .Excluded then
        .ok (some false, Function.update dangling name (some false))
      else if (dangling name).isSome then .ok (dangling name, dangling)
      else
        match resolveKeys getModelName (resolveDangling depth (name :: seen))
          relations.foreignKeys (Function.update dangling name (some true)) with
        | .error e => .error e
        | .ok (found, dangling) =>
          let resolved := if found then Function.update dangling name (some false) else dangling
          .ok (resolved name, resolved)

/-- The loop over the models, with the flags of the roots set. -/
def markDangling (depth : ℕ) (roots : Finset String) : Except ResolveError Flags :=
  deps.values.foldlM
    (fun dangling r ↦ Prod.snd <$> resolveDangling deps depth [] (getModelName r.model) dangling)
    fun name ↦ if name ∈ roots then some false else none

/-- A foreign key that is not nullable leads from the first model to the second. -/
def References (name target : String) : Prop :=
  ∃ r, deps.get name = some r ∧
    ∃ ff ∈ r.foreignKeys, ff.nullable = false ∧ getModelName ff.model = target

variable (roots : Finset String)

/-- A root, or a model that is excluded from relocation. -/
def Anchored (name : String) : Prop :=
  name ∈ roots ∨ ∃ r, deps.get name = some r ∧ r.relocationScope = .inl .Excluded

/-- No foreign keys that are not nullable lead to a root or an excluded model. -/
def Dangling (name : String) : Prop :=
  ∀ target, Relation.ReflTransGen (References deps) name target → ¬ Anchored deps roots target

/-- The flags are right, but for those of the models on the way. -/
structure Marked (seen : List String) (dangling : Flags) : Prop where
  root : ∀ name ∈ roots, dangling name = some false
  right : ∀ name flag, dangling name = some flag → name ∉ seen →
    (flag = true ↔ Dangling deps roots name)

/-- The later flags are right, and those that were set are kept. -/
structure Resolves (seen : List String) (dangling dangling' : Flags) : Prop where
  marked : Marked deps roots seen dangling'
  kept : ∀ name flag, dangling name = some flag → dangling' name = some flag

variable {deps roots} {seen : List String} {dangling : Flags} {name : String}

theorem dangling_iff (h : ¬ Anchored deps roots name) :
    Dangling deps roots name ↔ ∀ target, References deps name target → Dangling deps roots target := by
  constructor
  · exact fun hdangling target href last hlast ↦ hdangling last (hlast.head href)
  · intro htargets last hlast
    rcases hlast.cases_head with rfl | ⟨target, href, hlast⟩
    · exact h
    · exact htargets target href last hlast

theorem resolveKeys_spec {resolve : String → Flags → Except ResolveError (Option Bool × Flags)}
    {keys : List (ForeignField Model)} (hmarked : Marked deps roots seen dangling)
    (hresolve : ∀ ff ∈ keys, ff.nullable = false → ∀ flags, Marked deps roots seen flags →
      ∃ flag flags', resolve (getModelName ff.model) flags = .ok (some flag, flags') ∧
        (flag = true ↔ Dangling deps roots (getModelName ff.model)) ∧
          Resolves deps roots seen flags flags') :
    ∃ found dangling', resolveKeys getModelName resolve keys dangling = .ok (found, dangling') ∧
      (found = true ↔ ∃ ff ∈ keys, ff.nullable = false ∧
        ¬ Dangling deps roots (getModelName ff.model)) ∧
      Resolves deps roots seen dangling dangling' := by
  induction keys generalizing dangling with
  | nil => exact ⟨false, dangling, rfl, by simp, hmarked, fun _ _ h ↦ h⟩
  | cons ff rest ih =>
    rw [forall_mem_cons] at hresolve
    rw [resolveKeys]
    cases hnullable : ff.nullable with
    | true =>
      obtain ⟨found, dangling', hrest, hfound, hresolves⟩ := ih hmarked hresolve.2
      exact ⟨found, dangling', hrest, by simp [hfound, hnullable], hresolves⟩
    | false =>
      obtain ⟨flag, flags, hflag, hright, hresolved⟩ := hresolve.1 hnullable dangling hmarked
      rw [if_neg Bool.false_ne_true, hflag]
      cases flag with
      | false =>
        refine ⟨true, flags, rfl, iff_of_true rfl ⟨ff, mem_cons_self, hnullable, ?_⟩, hresolved⟩
        exact fun h ↦ Bool.false_ne_true (hright.mpr h)
      | true =>
        obtain ⟨found, dangling', hrest, hfound, hresolves⟩ := ih hresolved.marked hresolve.2
        refine ⟨found, dangling', hrest, ?_, hresolves.marked,
          fun other flag hother ↦ hresolves.kept other flag (hresolved.kept other flag hother)⟩
        rw [hfound, exists_mem_cons_iff, or_iff_right fun h ↦ h.2 (hright.mp rfl)]

theorem Marked.cons (h : Marked deps roots seen dangling) (name : String) :
    Marked deps roots (name :: seen) dangling :=
  ⟨h.root, fun other flag hflag hother ↦
    h.right other flag hflag fun hmem ↦ hother (mem_cons_of_mem name hmem)⟩

theorem Marked.provisional (h : Marked deps roots seen dangling) (hroot : name ∉ roots) :
    Marked deps roots (name :: seen) (Function.update dangling name (some true)) := by
  refine ⟨fun other hother ↦ ?_, fun other flag hflag hother ↦ ?_⟩
  · rw [update_of_ne (ne_of_mem_of_not_mem hother hroot)]
    exact h.root other hother
  · rw [mem_cons, not_or] at hother
    rw [update_of_ne hother.1] at hflag
    exact h.right other flag hflag hother.2

theorem Marked.settle (h : Marked deps roots (name :: seen) dangling) {flag : Bool}
    (hright : flag = true ↔ Dangling deps roots name) :
    Marked deps roots seen (Function.update dangling name (some flag)) := by
  refine ⟨fun other hother ↦ ?_, fun other value hvalue hother ↦ ?_⟩
  · rw [update_apply]
    split_ifs with hsame
    · rw [Bool.eq_false_iff.mpr fun hflag ↦ hright.mp hflag _ .refl (Or.inl (hsame ▸ hother))]
    · exact h.root other hother
  · rw [update_apply] at hvalue
    split_ifs at hvalue with hsame
    · rw [← Option.some.inj hvalue, hsame]
      exact hright
    · exact h.right other value hvalue (by simp [hsame, hother])

/-- Assumes: the foreign keys that are not nullable lead to models of the map, without a cycle, and
from every model on the way to this one. The walk ends with the right flag. -/
theorem resolveDangling_spec (hclosed : ∀ name target, References deps name target →
      (deps.get target).isSome)
    (hacyclic : ∀ name, ¬ Relation.TransGen (References deps) name name) {depth : ℕ}
    (hname : (deps.get name).isSome) (hnodup : seen.Nodup)
    (hseen : ∀ other ∈ seen, (deps.get other).isSome ∧
      Relation.TransGen (References deps) other name)
    (hdepth : deps.values.length ≤ depth + seen.length) (hmarked : Marked deps roots seen dangling) :
    ∃ flag dangling', resolveDangling deps depth seen name dangling = .ok (some flag, dangling') ∧
      (flag = true ↔ Dangling deps roots name) ∧ dangling' name = some flag ∧
        Resolves deps roots seen dangling dangling' := by
  induction depth generalizing seen name dangling with
  | zero =>
    have hmem {other : String} (h : (deps.get other).isSome) :
        other ∈ deps.values.map fun r ↦ getModelName r.model := by
      rw [Dependencies.get, find?_isSome] at h
      simpa using h
    have hnames : name :: seen ⊆ deps.values.map fun r ↦ getModelName r.model :=
      cons_subset.mpr ⟨hmem hname, fun other hother ↦ hmem (hseen other hother).1⟩
    have hcons : (name :: seen).Nodup :=
      nodup_cons.mpr ⟨fun h ↦ hacyclic name (hseen name h).2, hnodup⟩
    have hlength := (subperm_of_subset hcons hnames).length_le
    rw [length_cons, length_map] at hlength
    omega
  | succ depth ih =>
    have hunseen : name ∉ seen := fun h ↦ hacyclic name (hseen name h).2
    obtain ⟨r, hr⟩ := isSome_iff_exists.mp hname
    have hmodel : getModelName r.model = name := by simpa using find?_some hr
    rw [resolveDangling, hr]
    dsimp only
    rw [hmodel, if_neg hunseen]
    by_cases hexcluded : r.relocationScope = .inl .Excluded
    · have hnot : ¬ Dangling deps roots name :=
        fun h ↦ h name .refl (Or.inr ⟨r, hr, hexcluded⟩)
      rw [if_pos hexcluded]
      refine ⟨false, _, rfl, iff_of_false Bool.false_ne_true hnot, update_self _ _ _,
        (hmarked.cons name).settle (iff_of_false Bool.false_ne_true hnot),
        fun other flag hflag ↦ ?_⟩
      by_cases hsame : other = name
      · subst hsame
        rw [update_self, Bool.eq_false_iff.mpr fun htrue ↦
          hnot ((hmarked.right other flag hflag hunseen).mp htrue)]
      · rwa [update_of_ne hsame]
    rw [if_neg hexcluded]
    cases hflag : dangling name with
    | some flag =>
      exact ⟨flag, dangling, rfl, hmarked.right name flag hflag hunseen, hflag, hmarked,
        fun _ _ h ↦ h⟩
    | none =>
      have hroot : name ∉ roots :=
        fun h ↦ some_ne_none _ ((hmarked.root name h).symm.trans hflag)
      have hanchored : ¬ Anchored deps roots name := by
        rintro (h | ⟨r', hr', hscope⟩)
        · exact hroot h
        · exact hexcluded (Option.some.inj (hr.symm.trans hr') ▸ hscope)
      obtain ⟨found, dangling', hkeys, hfound, hresolves⟩ := @resolveKeys_spec _ _ _ _ _ _
        (resolveDangling deps depth (name :: seen)) r.foreignKeys (hmarked.provisional hroot)
        fun ff hff hnullable flags hflags ↦ by
          have href : References deps name (getModelName ff.model) :=
            ⟨r, hr, ff, hff, hnullable, rfl⟩
          obtain ⟨flag, flags', hok, hright, -, hrest⟩ := ih (hclosed _ _ href)
            (nodup_cons.mpr ⟨hunseen, hnodup⟩) (forall_mem_cons.mpr
              ⟨⟨hname, .single href⟩, fun other hother ↦
                ⟨(hseen other hother).1, (hseen other hother).2.tail href⟩⟩)
            (by rw [length_cons]; omega) hflags
          exact ⟨flag, flags', hok, hright, hrest⟩
      have hright : (!found) = true ↔ Dangling deps roots name := by
        rw [dangling_iff hanchored, Bool.not_eq_true', ← Bool.not_eq_true, hfound]
        push Not
        constructor
        · rintro h _ ⟨r', hr', ff, hff, hnullable, rfl⟩
          exact h ff (Option.some.inj (hr'.symm.trans hr) ▸ hff) hnullable
        · exact fun h ff hff hnullable ↦ h _ ⟨r, hr, ff, hff, hnullable, rfl⟩
      have hsettled : (if found then Function.update dangling' name (some false) else dangling') =
          Function.update dangling' name (some !found) := by
        cases found with
        | true => rfl
        | false => exact (update_eq_self_iff.mpr
            (hresolves.kept name true (update_self _ _ _)).symm).symm
      rw [if_neg (by simp), hkeys]
      dsimp only
      rw [hsettled, update_self]
      refine ⟨!found, _, rfl, hright, update_self _ _ _, hresolves.marked.settle hright,
        fun other flag hother ↦ ?_⟩
      have hne : other ≠ name := fun hsame ↦ by
        rw [hsame, hflag] at hother
        cases hother
      rw [update_of_ne hne]
      exact hresolves.kept other flag ((update_of_ne hne _ _).trans hother)

/-- Assumes: the foreign keys that are not nullable lead to models of the map, without a cycle. No
error is raised, and a model of the map is marked as dangling if and only if it is neither a root nor
excluded, and none of these keys lead from it to such a model. -/
theorem markDangling_exact (deps : Dependencies getModelName) (hclosed : ∀ name target,
      References deps name target → (deps.get target).isSome)
    (hacyclic : ∀ name, ¬ Relation.TransGen (References deps) name name) (roots : Finset String)
    {depth : ℕ} (hdepth : deps.values.length ≤ depth) :
    ∃ dangling, markDangling deps depth roots = .ok dangling ∧
      ∀ r ∈ deps.values, ∃ flag, dangling (getModelName r.model) = some flag ∧
        (flag = true ↔ Dangling deps roots (getModelName r.model)) := by
  have hrun (rest : List (ModelRelations Model)) (hrest : rest ⊆ deps.values) (flags : Flags)
      (hflags : Marked deps roots [] flags) : ∃ dangling,
        rest.foldlM (fun dangling r ↦
          Prod.snd <$> resolveDangling deps depth [] (getModelName r.model) dangling) flags =
            .ok dangling ∧ Resolves deps roots [] flags dangling ∧
              ∀ r ∈ rest, (dangling (getModelName r.model)).isSome := by
    induction rest generalizing flags with
    | nil => exact ⟨flags, rfl, ⟨hflags, fun _ _ h ↦ h⟩, by simp⟩
    | cons r rest ih =>
      rw [cons_subset] at hrest
      have hname : (deps.get (getModelName r.model)).isSome := by
        rw [Dependencies.get, find?_isSome]
        exact ⟨r, hrest.1, by simp⟩
      obtain ⟨flag, flags', hok, -, hset, hresolves⟩ := resolveDangling_spec hclosed hacyclic hname
        nodup_nil (by simp) (by simpa using hdepth) hflags
      obtain ⟨dangling, hfold, hrest', hsome⟩ := ih hrest.2 flags' hresolves.marked
      refine ⟨dangling, ?_, ⟨hrest'.marked, fun other value h ↦
        hrest'.kept other value (hresolves.kept other value h)⟩, ?_⟩
      · rw [foldlM_cons, hok]
        exact hfold
      · rw [forall_mem_cons, hrest'.kept _ flag hset]
        exact ⟨rfl, hsome⟩
  obtain ⟨dangling, hok, hresolves, hsome⟩ := hrun deps.values (List.Subset.refl _)
    (fun name ↦ if name ∈ roots then some false else none)
    ⟨fun name hname ↦ if_pos hname, fun name flag hflag _ ↦ by
      split_ifs at hflag with hroot
      rw [← Option.some.inj hflag]
      exact iff_of_false Bool.false_ne_true fun h ↦ h name .refl (Or.inl hroot)⟩
  refine ⟨dangling, hok, fun r hr ↦ ?_⟩
  obtain ⟨flag, hflag⟩ := isSome_iff_exists.mp (hsome r hr)
  exact ⟨flag, hflag, hresolves.marked.right _ flag hflag not_mem_nil⟩

/-- A model with a foreign key, which is not nullable, to a root. -/
def oneReference : Dependencies (id : String → String) where
  values := [⟨[⟨"sentry.user", false⟩], "sentry.email", ∅, .inl .User⟩,
    ⟨[], "sentry.user", ∅, .inl .User⟩]
  nodup := by decide

theorem references_oneReference {name target : String} (h : References oneReference name target) :
    name = "sentry.email" ∧ target = "sentry.user" := by
  obtain ⟨r, hr, ff, hff, -, rfl⟩ := h
  have hmem : r ∈ oneReference.values := mem_of_find?_eq_some hr
  have hname : r.model = name := by simpa using find?_some hr
  simp only [oneReference, mem_cons, not_mem_nil, or_false] at hmem
  rcases hmem with rfl | rfl
  · exact ⟨hname.symm, congrArg ForeignField.model (mem_singleton.mp hff)⟩
  · exact absurd hff not_mem_nil

theorem markDangling_exact_oneReference : ∃ dangling,
    markDangling oneReference 2 {"sentry.user"} = .ok dangling ∧ ∀ r ∈ oneReference.values,
      ∃ flag, dangling r.model = some flag ∧
        (flag = true ↔ Dangling oneReference {"sentry.user"} r.model) := by
  refine markDangling_exact oneReference (fun name target h ↦ ?_) (fun name h ↦ ?_) _ le_rfl
  · rw [(references_oneReference h).2]
    rfl
  · obtain ⟨target, hfirst, hrest⟩ := Relation.TransGen.head'_iff.mp h
    obtain ⟨rfl, rfl⟩ := references_oneReference hfirst
    rcases hrest.cases_head with heq | ⟨next, hnext, -⟩
    · exact absurd heq (by decide)
    · exact absurd (references_oneReference hnext).1 (by decide)

end Sentry.Backup
