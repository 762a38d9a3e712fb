import ZelerPlatform.History.Onboarding
import ZelerPlatform.Library.Mongo.Canonical

/-!
# Admission never refills a plan

What an admission adds was missing from the plan it read, and the comparison makes the plan it
writes to have the same paths. So an admission keeps every leaf, the policy is set once, and a
call that raises has set nothing but the identity of the plan.
-/

namespace ZelerPlatform.History.Onboarding

open Fallible Mongo Transition

/-! ### The patch -/

/-- The patch adds what the plan does not have of the defaults. -/
structure Adds (existing defaults : Doc) (patch : Patch) : Prop where
  missing : ∀ e ∈ patch, existing.at? e.1 = none
  default : ∀ e ∈ patch, defaults.at? e.1 = some e.2
  apart : patch.Pairwise fun a b => Apart a.1 b.1
  covers : ∀ path, (defaults.at? path).isSome → (existing.at? path).isSome ∨
    ∃ e ∈ patch, ∃ rest, path = e.1 ++ rest ∧ (e.2.follow rest).isSome

variable {existing defaults : Doc} {patch : Patch} {key : String} {value : Value}

/-- Each path of a patch begins with a key of the defaults. -/
theorem Adds.head (h : Adds existing defaults patch) {e : List String × Value} (mem : e ∈ patch) :
    ∃ k q, e.1 = k :: q ∧ (defaults.get? k).isSome := by
  have hmissing := h.missing e mem
  have hdefault := h.default e mem
  cases hpath : e.1 with
  | nil =>
      rw [hpath] at hmissing
      cases hmissing
  | cons k q =>
      rw [hpath, Doc.at?_cons] at hdefault
      obtain ⟨v, hv, -⟩ := Option.bind_eq_some_iff.mp hdefault
      exact ⟨k, q, rfl, by rw [hv]; rfl⟩

theorem get?_singleton {k : String} :
    Doc.get? [(key, value)] k = if k = key then some value else none := Doc.get?_cons

theorem get?_of_not_mem {k : String} (h : k ∉ defaults.map Prod.fst) : defaults.get? k = none := by
  induction defaults with
  | nil => rfl
  | cons field rest ih =>
      simp only [List.map_cons, List.mem_cons, not_or] at h
      rw [Doc.get?_cons, if_neg h.1]
      exact ih h.2

theorem Adds.nil : Adds existing [] [] where
  missing e mem := by cases mem
  default e mem := by cases mem
  apart := .nil
  covers path h := by
    cases path with
    | nil => exact .inl rfl
    | cons k q => cases h

theorem Adds.append {rest : Doc} {here further : Patch} (first : Adds existing [(key, value)] here)
    (second : Adds existing rest further) (fresh : key ∉ rest.map Prod.fst) :
    Adds existing ((key, value) :: rest) (here ++ further) := by
  have hhere {e : List String × Value} (mem : e ∈ here) : ∃ q, e.1 = key :: q := by
    obtain ⟨k, q, hpath, hk⟩ := first.head mem
    rw [get?_singleton] at hk
    by_cases h : k = key
    · exact ⟨q, h ▸ hpath⟩
    · rw [if_neg h] at hk
      cases hk
  have hfurther {e : List String × Value} (mem : e ∈ further) : ∃ k q, e.1 = k :: q ∧ k ≠ key := by
    obtain ⟨k, q, hpath, hk⟩ := second.head mem
    refine ⟨k, q, hpath, ?_⟩
    rintro rfl
    rw [get?_of_not_mem fresh] at hk
    cases hk
  constructor
  · intro e mem
    exact (List.mem_append.mp mem).elim (first.missing e) (second.missing e)
  · intro e mem
    obtain mem | mem := List.mem_append.mp mem
    · obtain ⟨q, hpath⟩ := hhere mem
      have hdefault := first.default e mem
      rw [hpath, Doc.at?_cons, get?_singleton, if_pos rfl] at hdefault
      rw [hpath, Doc.at?_cons, Doc.get?_cons, if_pos rfl]
      exact hdefault
    · obtain ⟨k, q, hpath, hk⟩ := hfurther mem
      have hdefault := second.default e mem
      rw [hpath, Doc.at?_cons] at hdefault
      rw [hpath, Doc.at?_cons, Doc.get?_cons, if_neg hk]
      exact hdefault
  · refine List.pairwise_append.mpr ⟨first.apart, second.apart, fun a ha b hb => ?_⟩
    obtain ⟨q, hpath⟩ := hhere ha
    obtain ⟨k, q', hpath', hk⟩ := hfurther hb
    rw [hpath, hpath']
    exact .of_head hk.symm
  · intro path h
    have hwiden {part : Patch} (sub : ∀ e ∈ part, e ∈ here ++ further)
        (h : (existing.at? path).isSome ∨
          ∃ e ∈ part, ∃ rest, path = e.1 ++ rest ∧ (e.2.follow rest).isSome) :
        (existing.at? path).isSome ∨
          ∃ e ∈ here ++ further, ∃ rest, path = e.1 ++ rest ∧ (e.2.follow rest).isSome :=
      h.imp_right fun ⟨e, mem, hrest⟩ => ⟨e, sub e mem, hrest⟩
    cases path with
    | nil => exact .inl rfl
    | cons k q =>
        rw [Doc.at?_cons, Doc.get?_cons] at h
        by_cases hk : k = key
        · rw [if_pos hk] at h
          refine hwiden (fun e mem => List.mem_append_left _ mem) (first.covers (k :: q) ?_)
          rw [Doc.at?_cons, get?_singleton, if_pos hk]
          exact h
        · rw [if_neg hk] at h
          exact hwiden (fun e mem => List.mem_append_right _ mem) (second.covers (k :: q) h)

/-- A default that is missing is added whole. -/
theorem Adds.absent (absent : existing.get? key = none) :
    Adds existing [(key, value)] [([key], value)] where
  missing e mem := by
    obtain rfl := List.mem_singleton.mp mem
    rw [Doc.at?_cons, absent]
    rfl
  default e mem := by
    obtain rfl := List.mem_singleton.mp mem
    rw [Doc.at?_cons, get?_singleton, if_pos rfl]
    rfl
  apart := List.pairwise_singleton _ _
  covers path h := by
    cases path with
    | nil => exact .inl rfl
    | cons k q =>
        rw [Doc.at?_cons, get?_singleton] at h
        by_cases hk : k = key
        · subst hk
          rw [if_pos rfl] at h
          exact .inr ⟨_, List.mem_singleton_self _, q, rfl, h⟩
        · rw [if_neg hk] at h
          cases h

/-- Of a leaf that is there nothing is added. -/
theorem Adds.present {old : Value} (present : existing.get? key = some old)
    (leaf : ∀ d, value ≠ .document d) : Adds existing [(key, value)] [] where
  missing e mem := by cases mem
  default e mem := by cases mem
  apart := .nil
  covers path h := by
    cases path with
    | nil => exact .inl rfl
    | cons k q =>
        rw [Doc.at?_cons, get?_singleton] at h
        by_cases hk : k = key
        · subst hk
          rw [if_pos rfl] at h
          cases q with
          | nil =>
              left
              rw [Doc.at?_cons, present]
              rfl
          | cons => cases value <;> first | cases h | exact absurd rfl (leaf _)
        · rw [if_neg hk] at h
          cases h

/-- What a document that is there lacks is added below it. -/
theorem Adds.below {inner below : Doc} {patch : Patch}
    (present : existing.get? key = some (.document inner)) (h : Adds inner below patch) :
    Adds existing [(key, .document below)] (patch.map fun (path, value) => (key :: path, value)) where
  missing e mem := by
    obtain ⟨e, hmem, rfl⟩ := List.mem_map.mp mem
    rw [Doc.at?_cons, present]
    exact h.missing e hmem
  default e mem := by
    obtain ⟨e, hmem, rfl⟩ := List.mem_map.mp mem
    rw [Doc.at?_cons, get?_singleton, if_pos rfl]
    exact h.default e hmem
  apart := List.pairwise_map.mpr (h.apart.imp fun hab => hab.cons key)
  covers path hpath := by
    cases path with
    | nil => exact .inl rfl
    | cons k q =>
        rw [Doc.at?_cons, get?_singleton] at hpath
        by_cases hk : k = key
        · subst hk
          rw [if_pos rfl] at hpath
          rw [Doc.at?_cons, present]
          refine (h.covers q hpath).imp_right fun ⟨e, mem, rest, hq, hrest⟩ => ?_
          exact ⟨_, List.mem_map_of_mem mem, rest, by rw [hq]; rfl, hrest⟩
        · rw [if_neg hk] at hpath
          cases hpath

/-- What is returned for a default adds it. -/
def LeafAdds (value : Value) : Prop :=
  ∀ (existing : Doc) (key : String) (patch : Patch), value.keysOnce = true →
    missingLeaf key (existing.get? key) value = .ok patch → Adds existing [(key, value)] patch

theorem leafAdds_of_leaf (leaf : ∀ d, value ≠ .document d) : LeafAdds value := by
  intro existing key patch _ h
  have hleaf : missingLeaf key (existing.get? key) value =
      .ok (if (existing.get? key).isNone then [([key], value)] else []) := by
    cases value with
    | document d => exact absurd rfl (leaf d)
    | _ => rfl
  rw [hleaf] at h
  obtain rfl := Except.ok.inj h
  cases hpresent : existing.get? key with
  | none => exact .absent hpresent
  | some old => exact .present hpresent leaf

mutual

theorem missingLeaf_adds : ∀ value : Value, LeafAdds value
  | .document defaults => by
      intro existing key patch once h
      cases hpresent : existing.get? key with
      | none =>
          rw [hpresent, missingLeaf] at h
          obtain rfl := pure_ok h
          exact .absent hpresent
      | some old =>
          rw [hpresent] at h
          cases old with
          | document inner =>
              rw [missingLeaf] at h
              obtain ⟨below, hbelow, h⟩ := bind_ok h
              obtain rfl := pure_ok h
              exact .below hpresent (missingLeaves_adds defaults once hbelow)
          | _ => cases h
  | .null | .bool _ | .int _ | .long _ | .double _ | .string _ | .date _ | .array _ | .other _ _ =>
      leafAdds_of_leaf fun _ h => by cases h

theorem missingLeaves_adds : ∀ (defaults : List (String × Value)) {existing : Doc} {patch : Patch},
    Value.fieldsOnce defaults = true → missingLeaves existing defaults = .ok patch →
      Adds existing defaults patch
  | [], existing, patch, _, h => by
      rw [missingLeaves] at h
      obtain rfl := pure_ok h
      exact .nil
  | (key, value) :: rest, existing, patch, once, h => by
      rw [missingLeaves] at h
      obtain ⟨here, hhere, h⟩ := bind_ok h
      obtain ⟨further, hfurther, h⟩ := bind_ok h
      obtain rfl := pure_ok h
      rw [Value.fieldsOnce, Bool.and_eq_true, Bool.and_eq_true, decide_eq_true_iff] at once
      obtain ⟨⟨fresh, hvalue⟩, hrest⟩ := once
      exact (missingLeaf_adds value _ _ _ hvalue hhere).append (missingLeaves_adds rest hrest hfurther)
        fresh

end

/-! ### The policy -/

/-- Every default of the policy is there. -/
def HasDefaults (doc : Doc) : Prop :=
  ∀ start cutoff now pilotSeed path, ((policyFrom start cutoff now pilotSeed).at? path).isSome →
    (doc.at? path).isSome

theorem fieldsOnce_policyFrom (start cutoff now : Int) (pilotSeed : Bool) :
    Value.fieldsOnce (policyFrom start cutoff now pilotSeed) = true := by
  cases pilotSeed <;> rfl

theorem plain_policyFrom (start cutoff now : Int) (pilotSeed : Bool) :
    (Value.document (policyFrom start cutoff now pilotSeed)).plain = true := by
  cases pilotSeed <;> rfl

/-- The leaves of the policy do not depend on what is linked and when. -/
theorem isSome_at?_policyFrom (start start' cutoff cutoff' now now' : Int) (p p' : Bool)
    (path : List String) : ((policyFrom start cutoff now p).at? path).isSome =
      ((policyFrom start' cutoff' now' p').at? path).isSome := by
  have hshape : (Value.document (policyFrom start cutoff now p)).shape =
      (Value.document (policyFrom start' cutoff' now' p')).shape := by
    cases p <;> cases p' <;> rfl
  show ((Value.document _).follow path).isSome = ((Value.document _).follow path).isSome
  rw [← Value.isSome_follow_shape, hshape, Value.isSome_follow_shape]

theorem HasDefaults.version {doc : Doc} (h : HasDefaults doc) :
    (doc.get? "policy_version").isSome := by
  have hpath := h 0 0 0 false ["policy_version"] rfl
  rw [Doc.at?_cons] at hpath
  cases hget : doc.get? "policy_version" with
  | none =>
      rw [hget] at hpath
      cases hpath
  | some v => rfl

/-- A plan that had no leaf missing has every default. -/
theorem HasDefaults.of_nothing_missing {doc : Doc} {start cutoff now : Int} {pilotSeed : Bool}
    (h : missingLeaves doc (policyFrom start cutoff now pilotSeed) = .ok []) :
    HasDefaults doc := by
  intro start' cutoff' now' pilotSeed' path hpath
  rw [isSome_at?_policyFrom start' start cutoff' cutoff now' now pilotSeed' pilotSeed] at hpath
  have hadds := missingLeaves_adds _ (fieldsOnce_policyFrom start cutoff now pilotSeed) h
  obtain hpresent | ⟨e, mem, -⟩ := hadds.covers path hpath
  · exact hpresent
  · cases mem

/-! ### One write of an admission -/

/-- The leaves are still there, and of the last link only the time has grown. -/
structure KeepsLeaves (doc doc' : Doc) : Prop where
  leaves : ∀ path v, path.head? ≠ some "last_linked_at" → doc.at? path = some v →
    ∃ w, doc'.at? path = some w ∧ v.Grown w
  linked : ∀ v, doc.get? "last_linked_at" = some v →
    ∃ w, doc'.get? "last_linked_at" = some w ∧ (v.Grown w ∨ v.compare w = .lt)

variable {doc doc' : Doc} {cutoff now start : Int} {pilotSeed : Bool}

theorem at?_single : doc.at? [key] = doc.get? key := by
  rw [Doc.at?_cons]
  cases doc.get? key <;> rfl

theorem KeepsLeaves.of_extends (h : doc.Extends doc') : KeepsLeaves doc doc' where
  leaves path v _ hv := h path v hv
  linked v hv := by
    obtain ⟨w, hw, hgrown⟩ := h ["last_linked_at"] v (at?_single.trans hv)
    exact ⟨w, at?_single.symm.trans hw, .inl hgrown⟩

theorem get?_maxField {field k : String} (h : k ≠ field) :
    (maxField doc field value).get? k = doc.get? k := by
  unfold maxField
  split
  · split
    · rw [Doc.get?_set, if_neg h]
    · rfl
  · rw [Doc.get?_set, if_neg h]

theorem KeepsLeaves.of_maxField : KeepsLeaves doc (maxField doc "last_linked_at" value) where
  leaves path v hpath hv := by
    cases path with
    | nil => exact ⟨_, rfl, .inr ⟨doc, _, (Option.some.inj hv).symm, rfl⟩⟩
    | cons k q =>
        have hk : k ≠ "last_linked_at" := fun heq => hpath (congrArg some heq)
        refine ⟨v, ?_, .refl v⟩
        rw [Doc.at?_cons, get?_maxField hk]
        exact hv
  linked v hv := by
    rw [maxField, hv]
    by_cases h : v.compare value = .lt
    · refine ⟨value, ?_, .inr h⟩
      simp only [h, if_true]
      rw [Doc.get?_set, if_pos rfl]
    · refine ⟨v, ?_, .inl (.refl v)⟩
      simp only [h, if_false]
      exact hv

theorem ranked_maxField {field : String} {t : Int} (h : (Value.document doc).Ranked) :
    (Value.document (maxField doc field (.date t))).Ranked := by
  have hset : (Value.document (doc.set field (.date t))).Ranked :=
    Doc.ranked_setPath (p := [field]) rfl h (Value.ranked_of_plain rfl)
  unfold maxField
  split
  · split
    · exact hset
    · exact h
  · exact hset

theorem KeepsLeaves.isSome (h : KeepsLeaves doc doc') {path : List String}
    (hpath : path.head? ≠ some "last_linked_at") (some : (doc.at? path).isSome) :
    (doc'.at? path).isSome := by
  obtain ⟨v, hv⟩ := Option.isSome_iff_exists.mp some
  obtain ⟨w, hw, -⟩ := h.leaves path v hpath hv
  rw [hw]
  rfl

/-- A write that keeps the leaves keeps the defaults. -/
theorem HasDefaults.keeps (h : HasDefaults doc) (keeps : KeepsLeaves doc doc') :
    HasDefaults doc' := by
  intro start cutoff now pilotSeed path hpath
  by_cases hhead : path.head? = some "last_linked_at"
  · have hdefault := h start cutoff now pilotSeed path hpath
    cases path with
    | nil => cases hhead
    | cons k q =>
        obtain rfl : k = "last_linked_at" := Option.some.inj hhead
        -- The default is a date, below which there is nothing.
        cases q with
        | cons => cases pilotSeed <;> cases hpath
        | nil =>
            rw [at?_single] at hdefault ⊢
            obtain ⟨v, hv⟩ := Option.isSome_iff_exists.mp hdefault
            obtain ⟨w, hw, -⟩ := keeps.linked v hv
            rw [hw]
            rfl
  · exact keeps.isSome hhead (h start cutoff now pilotSeed path hpath)

theorem plannedPatch_ok (h : plannedPatch existing cutoff now pilotSeed = .ok (defaults, patch)) :
    (∃ start, defaults = policyFrom start cutoff now pilotSeed) ∧
      missingLeaves existing defaults = .ok patch ∧
      ifPresent (fun value => discard (utcDate value)) existing "last_linked_at" = .ok ⟨⟩ := by
  rw [plannedPatch] at h
  obtain ⟨_, hlegacy, h⟩ := bind_ok h
  obtain ⟨-, h⟩ := raiseIf_ok h
  obtain ⟨_, hdefaults, h⟩ := bind_ok h
  obtain ⟨_, hpatch, h⟩ := bind_ok h
  obtain ⟨_, -, h⟩ := bind_ok h
  obtain ⟨-, -, h⟩ := bind_ok h
  obtain ⟨rfl, rfl⟩ := Prod.mk.inj (pure_ok h)
  refine ⟨?_, hpatch, ?_⟩
  · obtain ⟨start, -, h⟩ := bind_ok hdefaults
    exact ⟨start, (pure_ok h).symm⟩
  · rw [validateLegacy] at hlegacy
    obtain ⟨-, -, hlegacy⟩ := bind_ok hlegacy
    obtain ⟨-, -, hlegacy⟩ := bind_ok hlegacy
    obtain ⟨-, -, hlegacy⟩ := bind_ok hlegacy
    obtain ⟨-, -, hlegacy⟩ := bind_ok hlegacy
    obtain ⟨-, -, hlegacy⟩ := bind_ok hlegacy
    obtain ⟨-, hlegacy⟩ := raiseIf_ok hlegacy
    obtain ⟨_, hdates, -⟩ := bind_ok hlegacy
    exact forM_ok hdates (by simp)

/-- The patch on a plan that has the paths of the one it was computed from. -/
theorem applied_patch {plan plan' : Doc} (adds : Adds existing defaults patch)
    (same : ∀ path, (plan.at? path).isSome = (existing.at? path).isSome)
    (apply : plan.applyPatch patch = some plan') :
    plan.Extends plan' ∧ ∀ path, (defaults.at? path).isSome → (plan'.at? path).isSome := by
  have hmissing : ∀ e ∈ patch, plan.at? e.1 = none := by
    intro e mem
    rw [← Option.isNone_iff_eq_none, ← Option.not_isSome, same, adds.missing e mem]
    rfl
  obtain ⟨hextends, hset⟩ := Doc.extends_applyPatch apply hmissing adds.apart
  refine ⟨hextends, fun path hpath => ?_⟩
  obtain hpresent | ⟨e, mem, rest, rfl, hrest⟩ := adds.covers path hpath
  · rw [← same] at hpresent
    obtain ⟨v, hv⟩ := Option.isSome_iff_exists.mp hpresent
    obtain ⟨w, hw, -⟩ := hextends path v hv
    rw [hw]
    rfl
  · rw [Doc.at?, Value.follow_append, show (Value.document plan').follow e.1 = some e.2 from
      hset e mem]
    exact hrest

/-! ### What a step of an admission does -/

variable {ι : Type} {i j : ι} {s t start₀ : Plans ι} {sellerId : String}

/-- A step of an admission: what it has written it has recorded. -/
inductive Admits (sellerId : String) (i : ι) : Plans ι → Plans ι → Prop
  | nothing {s : Plans ι} : Admits sellerId i s s
  | identity {s : Plans ι} (now : Int) (unplanned : s.plan = none) :
      Admits sellerId i s ⟨some (identity sellerId now), s.writes ++ [(i, .identity)]⟩
  | policy {s : Plans ι} {plan plan' : Doc} {patch : Patch} (planned : s.plan = some plan)
      (fresh : plan.get? "policy_version" = none) (keeps : KeepsLeaves plan plan')
      (ranked : (Value.document plan).Ranked → (Value.document plan').Ranked)
      (filled : HasDefaults plan') :
      Admits sellerId i s ⟨some plan', s.writes ++ [(i, .policy patch)]⟩
  | linked {s : Plans ι} {plan plan' : Doc} (planned : s.plan = some plan)
      (keeps : KeepsLeaves plan plan')
      (ranked : (Value.document plan).Ranked → (Value.document plan').Ranked)
      (version : plan'.get? "policy_version" = plan.get? "policy_version") :
      Admits sellerId i s ⟨some plan', s.writes ++ [(i, .linked)]⟩

def Versioned (s : Plans ι) : Prop :=
  ∃ plan, s.plan = some plan ∧ (plan.get? "policy_version").isSome

def Filled (s : Plans ι) : Prop := ∃ plan, s.plan = some plan ∧ HasDefaults plan

/-- The plan holds documents as the server orders them. -/
def Ranked (s : Plans ι) : Prop := ∀ plan, s.plan = some plan → (Value.document plan).Ranked

def Write.isPolicy : Write → Bool
  | .policy _ => true
  | _ => false

/-- How often the policy has been set. -/
def policies (s : Plans ι) : Nat := s.writes.countP fun w => w.2.isPolicy

/-- The call has written nothing but the identity of the plan. -/
def Clean (i : ι) (s : Plans ι) : Prop := ∀ w ∈ s.writes, w.1 = i → w.2 = .identity

theorem Filled.versioned (h : Filled s) : Versioned s := by
  obtain ⟨plan, hplan, hdefaults⟩ := h
  exact ⟨plan, hplan, hdefaults.version⟩

theorem Clean.append (h : Clean j s) {plan : Option Doc} {w : Write}
    (other : i = j → w = .identity) : Clean j ⟨plan, s.writes ++ [(i, w)]⟩ := by
  intro w' mem
  obtain mem | mem := List.mem_append.mp mem
  · exact h w' mem
  · obtain rfl := List.mem_singleton.mp mem
    exact other

theorem policies_append {plan : Option Doc} {w : Write} :
    policies ⟨plan, s.writes ++ [(i, w)]⟩ =
      policies s + w.isPolicy.toNat := by
  cases w <;> simp [policies, List.countP_append, Write.isPolicy]

/-- What holds of the plan all along. -/
structure Sound (start₀ s : Plans ι) : Prop where
  ranked : Ranked s
  version : Versioned start₀ → Versioned s
  filled : ¬ Versioned start₀ → Versioned s → Filled s
  once : policies s ≤ 1
  first : (Versioned s → Versioned start₀) → policies s = 0

namespace Admits

theorem filled (h : Admits sellerId i s t) (filled : Filled s) : Filled t := by
  obtain ⟨plan, hplan, hdefaults⟩ := filled
  cases h with
  | nothing => exact ⟨plan, hplan, hdefaults⟩
  | identity _ unplanned => cases unplanned.symm.trans hplan
  | policy _ _ _ _ filled => exact ⟨_, rfl, filled⟩
  | linked planned keeps =>
      obtain rfl := Option.some.inj (planned.symm.trans hplan)
      exact ⟨_, rfl, hdefaults.keeps keeps⟩

theorem clean (h : Admits sellerId i s t) (ne : i ≠ j) (clean : Clean j s) : Clean j t := by
  cases h with
  | nothing => exact clean
  | identity => exact clean.append fun _ => rfl
  | policy => exact clean.append fun heq => absurd heq ne
  | linked => exact clean.append fun heq => absurd heq ne

theorem sound (h : Admits sellerId i s t) (sound : Sound start₀ s) : Sound start₀ t := by
  cases h with
  | nothing => exact sound
  | identity now unplanned =>
      have hbefore : ¬ Versioned s := fun ⟨plan, hplan, _⟩ => by cases unplanned.symm.trans hplan
      have hafter : ¬ Versioned (⟨some (Onboarding.identity sellerId now),
          s.writes ++ [(i, .identity)]⟩ : Plans ι) := by
        rintro ⟨plan, hplan, hversion⟩
        obtain rfl := Option.some.inj hplan
        cases hversion
      have hzero := sound.first fun h => absurd h hbefore
      refine ⟨?_, fun h => absurd (sound.version h) hbefore, fun _ h => absurd h hafter, ?_, ?_⟩
      · intro plan hplan
        obtain rfl := Option.some.inj hplan
        exact Value.ranked_of_plain rfl
      · rw [policies_append, hzero]
        exact Nat.zero_le _
      · intro _
        rw [policies_append, hzero]
        rfl
  | policy planned fresh keeps ranked filled =>
      have hbefore : ¬ Versioned s := by
        rintro ⟨plan, hplan, hversion⟩
        obtain rfl := Option.some.inj (planned.symm.trans hplan)
        rw [fresh] at hversion
        cases hversion
      have hstart : ¬ Versioned start₀ := fun h => hbefore (sound.version h)
      have hzero := sound.first fun h => absurd h hbefore
      have hfilled : ∀ {writes}, Filled (⟨some _, writes⟩ : Plans ι) := fun {_} => ⟨_, rfl, filled⟩
      refine ⟨?_, fun h => absurd h hstart, fun _ _ => hfilled, ?_, ?_⟩
      · intro plan hplan
        obtain rfl := Option.some.inj hplan
        exact ranked (sound.ranked _ planned)
      · rw [policies_append, hzero]
        exact Nat.le_refl 1
      · exact fun h => absurd (h hfilled.versioned) hstart
  | @linked plan plan' planned keeps ranked version =>
      have hsame {writes} : Versioned (⟨some plan', writes⟩ : Plans ι) ↔ Versioned s := by
        constructor
        · rintro ⟨plan, hplan, hversion⟩
          obtain rfl := Option.some.inj hplan
          exact ⟨_, planned, version ▸ hversion⟩
        · rintro ⟨plan, hplan, hversion⟩
          obtain rfl := Option.some.inj (planned.symm.trans hplan)
          exact ⟨_, rfl, version.symm ▸ hversion⟩
      refine ⟨?_, fun h => hsame.mpr (sound.version h), ?_, ?_, ?_⟩
      · intro plan hplan
        obtain rfl := Option.some.inj hplan
        exact ranked (sound.ranked _ planned)
      · intro hstart hversion
        obtain ⟨plan, hplan, hdefaults⟩ := sound.filled hstart (hsame.mp hversion)
        obtain rfl := Option.some.inj (planned.symm.trans hplan)
        exact ⟨_, rfl, hdefaults.keeps keeps⟩
      · rw [policies_append]
        exact sound.once
      · intro h
        rw [policies_append]
        exact sound.first fun hs => h (hsame.mpr hs)

end Admits

/-! ### Other writers -/

/-- A step of another writer: it neither sets nor removes the version of the policy, and it
removes no default of a plan that has them all. -/
structure Foreign (s t : Plans ι) : Prop where
  writes : t.writes = s.writes
  ranked : Ranked s → Ranked t
  version : Versioned t ↔ Versioned s
  filled : Filled s → Filled t

/-- A program each step of which is that of another writer. -/
def OtherWriter {A : Type} : Program Label (Plans ι) A → Prop
  | .ret _ => True
  | .atomic _ write next => (∀ s, Foreign s (write s)) ∧ ∀ s, OtherWriter (next s)

namespace Foreign

theorem clean (h : Foreign s t) (clean : Clean j s) : Clean j t := by
  intro w mem
  rw [h.writes] at mem
  exact clean w mem

theorem sound (h : Foreign s t) (sound : Sound start₀ s) : Sound start₀ t := by
  have hpolicies : policies t = policies s := by
    rw [policies, h.writes]
    rfl
  refine ⟨h.ranked sound.ranked, fun hs => h.version.mpr (sound.version hs), ?_, ?_, ?_⟩
  · exact fun hstart ht => h.filled (sound.filled hstart (h.version.mp ht))
  · rw [hpolicies]
    exact sound.once
  · intro hfirst
    rw [hpolicies]
    exact sound.first fun hs => hfirst (h.version.mpr hs)

end Foreign

/-! ### The call -/

variable {A : Type}

/-- A call among the others. -/
def frame (sellerId : String) (start₀ : Plans ι) (i : ι) : Frame Label (Plans ι) where
  rely s t := (Sound start₀ s → Sound start₀ t) ∧ (Filled s → Filled t) ∧ (Clean i s → Clean i t)
  guar s t := Admits sellerId i s t
  allowed _ _ := True
  refl _ := ⟨id, id, id⟩
  trans h h' := ⟨h'.1 ∘ h.1, h'.2.1 ∘ h.2.1, h'.2.2 ∘ h.2.2⟩

theorem stable_sound : (frame sellerId start₀ i).Stable (Sound start₀) := fun _ _ h => h.1

theorem stable_filled {c : Prop} : (frame sellerId start₀ i).Stable fun s => c → Filled s :=
  fun _ _ h hs hc => h.2.1 (hs hc)

theorem stable_clean : (frame sellerId start₀ i).Stable (Clean i) := fun _ _ h => h.2.2

/-- Up to its patch the call is clean. -/
def Begun (start₀ : Plans ι) (i : ι) (s : Plans ι) : Prop := Sound start₀ s ∧ Clean i s

theorem stable_begun : (frame sellerId start₀ i).Stable (Begun start₀ i) :=
  stable_sound.and stable_clean

/-- What is known of a plan that was found. -/
def Found (start₀ : Plans ι) (found : Option Doc) (s : Plans ι) : Prop :=
  ∀ plan, found = some plan → (Value.document plan).Ranked ∧
    ((plan.get? "policy_version").isSome → ¬ Versioned start₀ → Filled s) ∧
    (HasDefaults plan → Filled s)

theorem stable_found {found : Option Doc} :
    (frame sellerId start₀ i).Stable (Found start₀ found) := by
  intro s t h hs plan hplan
  obtain ⟨hranked, hversion, hdefaults⟩ := hs plan hplan
  exact ⟨hranked, fun hv hstart => h.2.1 (hversion hv hstart), fun hd => h.2.1 (hdefaults hd)⟩

/-- The plan may be linked: it is filled, and the call will not raise once it has written. -/
def Linkable (start₀ : Plans ι) (i : ι) (existing : Doc) (s : Plans ι) : Prop :=
  (¬ Versioned start₀ → Filled s) ∧
    (ifPresent (fun value => discard (utcDate value)) existing "last_linked_at" = .ok ⟨⟩ ∨
      Clean i s)

theorem stable_linkable : (frame sellerId start₀ i).Stable (Linkable start₀ i existing) :=
  fun _ _ h hs => ⟨fun hc => h.2.1 (hs.1 hc), hs.2.imp_right h.2.2⟩

theorem upsertIdentity_triple :
    (frame sellerId start₀ i).Triple (Begun start₀ i) (upsertIdentity i sellerId now)
      (fun _ => Begun start₀ i) fun _ => Clean i := by
  refine Frame.Triple.op stable_begun (fun _ => stable_begun) (fun _ => stable_clean)
    fun s hs _ => ?_
  cases hplan : s.plan with
  | some plan => exact ⟨.nothing, hs⟩
  | none =>
      have hstep : Admits sellerId i s _ := .identity now hplan
      exact ⟨hstep, hstep.sound hs.1, hs.2.append fun _ => rfl⟩

theorem findPlan_triple {label : Label} :
    (frame sellerId start₀ i).Triple (Begun start₀ i) (findPlan label sellerId)
      (fun found s => Begun start₀ i s ∧ Found start₀ found s) fun _ => Clean i := by
  refine Frame.Triple.op stable_begun (fun _ => stable_begun.and stable_found)
    (fun _ => stable_clean) fun s hs _ => ⟨.nothing, hs, fun plan hfound => ?_⟩
  have hplan : s.plan = some plan := (Option.filter_eq_some_iff.mp hfound).1
  exact ⟨hs.1.ranked plan hplan, fun hv hstart => hs.1.filled hstart ⟨plan, hplan, hv⟩,
    fun hd => ⟨plan, hplan, hd⟩⟩

theorem link_triple :
    (frame sellerId start₀ i).Triple (fun s => ¬ Versioned start₀ → Filled s)
      (link i sellerId now) (fun _ s => ¬ Versioned start₀ → Filled s) fun _ _ => False := by
  refine Frame.Triple.op stable_filled (fun _ => stable_filled) (fun _ _ _ _ h => h)
    fun s hs _ => ?_
  cases hplan : s.plan with
  | none => exact ⟨.nothing, hs⟩
  | some plan =>
      by_cases hmatch : ofSeller sellerId plan ∧
          eqMatches (plan.get? "policy_version") (.string policyVersion)
      · have hkeeps : KeepsLeaves plan (maxField plan "last_linked_at" (.date now)) := .of_maxField
        have hstep : Admits sellerId i s _ :=
          .linked hplan hkeeps ranked_maxField (get?_maxField (by decide))
        simp only [if_pos hmatch]
        exact ⟨hstep, fun hstart => hstep.filled (hs hstart)⟩
      · simp only [if_neg hmatch]
        exact ⟨.nothing, hs⟩

/-- The write of a patch that was computed from a plan with the same paths. -/
theorem setPolicy_triple (planned : plannedPatch existing cutoff now pilotSeed =
      .ok (defaults, patch)) (ranked : (Value.document existing).Ranked)
    (fresh : existing.get? "policy_version" = none) :
    (frame sellerId start₀ i).Triple (Begun start₀ i) (setPolicy i sellerId existing patch)
      (fun matched s => if matched then Filled s else Begun start₀ i s) fun _ => Clean i := by
  refine Frame.Triple.op stable_begun (fun matched => ?_) (fun _ => stable_clean) fun s hs _ => ?_
  · cases matched with
    | true => exact fun s t h hs => h.2.1 hs
    | false => exact stable_begun
  cases hplan : s.plan with
  | none => exact ⟨.nothing, hs⟩
  | some plan =>
      by_cases hmatch : ofSeller sellerId plan ∧
          (Value.document plan).compare (.document existing) = .eq
      · simp only [if_pos hmatch]
        cases happly : plan.applyPatch patch with
        | none => exact ⟨.nothing, hs.2⟩
        | some plan' =>
            obtain ⟨⟨start, rfl⟩, hmissing, -⟩ := plannedPatch_ok planned
            have hadds := missingLeaves_adds _ (fieldsOnce_policyFrom start cutoff now pilotSeed)
              hmissing
            have hranked := hs.1.ranked plan hplan
            have hsame (path : List String) : (plan.at? path).isSome = (existing.at? path).isSome :=
              Value.isSome_follow_of_compare hmatch.2 hranked ranked
            obtain ⟨hextends, hall⟩ := applied_patch hadds hsame happly
            have hdefaults : HasDefaults plan' := by
              intro start' cutoff' now' pilotSeed' path hpath
              rw [isSome_at?_policyFrom start' start cutoff' cutoff now' now pilotSeed'
                pilotSeed] at hpath
              exact hall path hpath
            have hfresh : plan.get? "policy_version" = none := by
              have hversion := hsame ["policy_version"]
              rw [at?_single, at?_single, fresh] at hversion
              exact Option.isNone_iff_eq_none.mp (by rw [← Option.not_isSome, hversion]; rfl)
            have hvalues : ∀ e ∈ patch, e.2.Ranked := fun e mem =>
              (Value.ranked_of_plain (plain_policyFrom start cutoff now pilotSeed)).at_follow
                (hadds.default e mem)
            exact ⟨.policy hplan hfresh (.of_extends hextends)
              (fun h => Doc.ranked_applyPatch happly h hvalues) hdefaults, plan', rfl, hdefaults⟩
      · simp only [if_neg hmatch]
        exact ⟨.nothing, hs⟩

theorem acceptWinner_ok {winner : Option Doc} {accepted : Doc}
    (h : acceptWinner winner existing (policyFrom start cutoff now pilotSeed) cutoff now pilotSeed =
      .ok accepted) : winner = some accepted ∧ HasDefaults accepted := by
  cases winner with
  | none => exact (throw_ok h).elim
  | some winner =>
      simp only [acceptWinner] at h
      obtain ⟨-, h⟩ := raiseIf_ok h
      obtain ⟨_, -, h⟩ := bind_ok h
      obtain ⟨-, h⟩ := raiseIf_ok h
      obtain ⟨missing, hmissing, h⟩ := bind_ok h
      obtain ⟨hnone, h⟩ := raiseIf_ok h
      obtain rfl := pure_ok h
      obtain ⟨rfl, -⟩ : missing = [] ∧ _ := by simpa [not_or] using hnone
      exact ⟨rfl, .of_nothing_missing hmissing⟩

theorem check_triple {x : Except AdmissionError A} {P : Plans ι → Prop}
    (hP : (frame sellerId start₀ i).Stable P) (clean : ∀ s, P s → Clean i s) :
    (frame sellerId start₀ i).Triple P (check x) (fun a s => x = .ok a ∧ P s)
      fun _ => Clean i :=
  Frame.Triple.lift (fun _ _ => Frame.Stable.pure.and hP) (fun _ _ => stable_clean)
    (fun _ _ hx hs => ⟨hx, hs⟩) fun _ s _ hs => clean s hs

/-- The end of a call. -/
theorem linkable_triple :
    (frame sellerId start₀ i).Triple (Linkable start₀ i existing)
      (do
        check (ifPresent (fun value => discard (utcDate value)) existing "last_linked_at")
        link i sellerId now)
      (fun _ s => ¬ Versioned start₀ → Filled s) fun _ => Clean i := by
  have hE : ∀ _ : AdmissionError, (frame sellerId start₀ i).Stable (Clean i) :=
    fun _ => stable_clean
  refine (Frame.Triple.lift (Q := fun _ s => ¬ Versioned start₀ → Filled s)
    (fun _ _ => stable_filled) (fun _ _ => stable_clean) (fun _ s _ hs => hs.1) ?_).bind
    (fun _ => link_triple.consequence (fun _ h => h) (fun _ _ h => h) fun _ _ h => h.elim) hE
  intro e s herror hs
  obtain hok | hclean := hs.2
  · cases herror.symm.trans hok
  · exact hclean

theorem identified_ok {found : Option Doc} (h : identified found = .ok (existing, cutoff)) :
    found = some existing := by
  cases found with
  | none => exact (throw_ok h).elim
  | some plan =>
      simp only [identified] at h
      split at h
      · exact (throw_ok h).elim
      · rw [(Prod.mk.inj (pure_ok h)).1]

theorem admitHistoryOnboarding_triple :
    (frame sellerId start₀ i).Triple (Begun start₀ i)
      (admitHistoryOnboarding i sellerId now pilotSeed)
      (fun _ s => ¬ Versioned start₀ → Filled s) fun _ => Clean i := by
  have hE : ∀ _ : AdmissionError, (frame sellerId start₀ i).Stable (Clean i) :=
    fun _ => stable_clean
  unfold admitHistoryOnboarding
  refine (check_triple stable_begun fun s hs => hs.2).bind (fun _ => ?_) hE
  refine (upsertIdentity_triple.pre fun s hs => hs.2).bind (fun _ => ?_) hE
  refine findPlan_triple.bind (fun found => ?_) hE
  refine (check_triple (stable_begun.and stable_found) fun s hs => hs.1.2).bind
    (fun identified => ?_) hE
  obtain ⟨existing, cutoff⟩ := identified
  dsimp only
  cases hversion : existing.get? "policy_version" with
  | some version =>
      refine (check_triple ((Frame.Stable.pure.and (stable_begun.and stable_found)))
        fun s hs => hs.2.1.2).bind (fun _ => ?_) hE
      refine linkable_triple.pre ?_
      rintro s ⟨-, hfound, hbegun, hplan⟩
      obtain ⟨-, hfilled, -⟩ := hplan existing (identified_ok hfound)
      exact ⟨hfilled (by rw [hversion]; rfl), .inr hbegun.2⟩
  | none =>
      refine (check_triple ((Frame.Stable.pure.and (stable_begun.and stable_found)))
        fun s hs => hs.2.1.2).bind (fun planned => ?_) hE
      obtain ⟨defaults, patch⟩ := planned
      refine .with_fact (c := plannedPatch existing cutoff (now / 1000000 * 1000000) pilotSeed =
        .ok (defaults, patch) ∧ (Value.document existing).Ranked) ?_ ?_
      · rintro s ⟨hplanned, hfound, -, hplan⟩
        exact ⟨hplanned, (hplan existing (identified_ok hfound)).1⟩
      rintro ⟨hplanned, hranked⟩
      obtain ⟨⟨start, rfl⟩, -, hlinked⟩ := plannedPatch_ok hplanned
      refine ((setPolicy_triple hplanned hranked hversion).pre fun s hs => hs.2.2.1).bind
        (fun matched => ?_) hE
      cases matched with
      | true => exact linkable_triple.pre fun s hs => ⟨fun _ => hs, .inl hlinked⟩
      | false =>
          refine findPlan_triple.bind (fun winner => ?_) hE
          refine (check_triple (stable_begun.and stable_found) fun s hs => hs.1.2).bind
            (fun accepted => ?_) hE
          refine linkable_triple.pre ?_
          rintro s ⟨haccepted, hbegun, hwinner⟩
          obtain ⟨hplan, hdefaults⟩ := acceptWinner_ok haccepted
          exact ⟨fun _ => (hwinner accepted hplan).2.2 hdefaults, .inr hbegun.2⟩

/-! ### Runs -/

/-- Who is at work on the plan. -/
inductive Party (ι : Type)
  | admission (now : Int) (pilotSeed : Bool)
  | writer (program : Program Label (Plans ι) (Except AdmissionError PUnit))

def Party.program (sellerId : String) (i : ι) :
    Party ι → Program Label (Plans ι) (Except AdmissionError PUnit)
  | .admission now pilotSeed => (admitHistoryOnboarding i sellerId now pilotSeed).run
  | .writer program => program

abbrev Parties (ι : Type) := Pool ι (Plans ι) (Program Label (Plans ι) (Except AdmissionError PUnit))

/-- The parties at the beginning, on the plan that is stored. -/
def parties (sellerId : String) (party : ι → Party ι) (plan : Option Doc) : Parties ι :=
  ⟨⟨plan, []⟩, fun i => (party i).program sellerId i⟩

/-- What a party relies on and guarantees. -/
def Party.contract (sellerId : String) (start₀ : Plans ι) (i : ι) :
    Party ι → Contract (Plans ι) (Except AdmissionError PUnit)
  | .admission _ _ => (frame sellerId start₀ i).contract
      (fun _ s => ¬ Versioned start₀ → Filled s) fun _ => Clean i
  | .writer _ =>
      { rely _ _ := True, guar := Foreign, post _ _ := True, refl _ := trivial,
        trans _ _ := trivial }

theorem OtherWriter.meets {p : Program Label (Plans ι) (Except AdmissionError PUnit)}
    {c : Contract (Plans ι) (Except AdmissionError PUnit)} (h : OtherWriter p)
    (guar : ∀ s t, Foreign s t → c.guar s t) (post : ∀ a s, c.post a s) (s : Plans ι) :
    Program.Meets c (fun _ _ => True) p s := by
  induction p generalizing s with
  | ret a => exact fun t _ => post a t
  | atomic label write next ih =>
      exact fun t _ _ => ⟨guar _ _ (h.1 t), ih t (h.2 t) (write t)⟩

theorem Party.keeps {party : Party ι} (guar : (party.contract sellerId start₀ i).guar s t) :
    (Sound start₀ s → Sound start₀ t) ∧ (Filled s → Filled t) ∧
      ∀ j, i ≠ j → Clean j s → Clean j t := by
  cases party with
  | admission now pilotSeed =>
      have hstep : Admits sellerId i s t := guar
      exact ⟨hstep.sound, hstep.filled, fun j hj => hstep.clean hj⟩
  | writer program =>
      have hstep : Foreign s t := guar
      exact ⟨hstep.sound, hstep.filled, fun j _ => hstep.clean⟩

theorem Admits.keepsLeaves (h : Admits sellerId i s t) (planned : s.plan = some doc) :
    ∃ doc', t.plan = some doc' ∧ KeepsLeaves doc doc' := by
  cases h with
  | nothing => exact ⟨doc, planned, .of_extends (.refl doc)⟩
  | identity _ unplanned => cases unplanned.symm.trans planned
  | policy hplan _ keeps =>
      obtain rfl := Option.some.inj (hplan.symm.trans planned)
      exact ⟨_, rfl, keeps⟩
  | linked hplan keeps =>
      obtain rfl := Option.some.inj (hplan.symm.trans planned)
      exact ⟨_, rfl, keeps⟩

/-- However admissions and other writers come after one another: a step of an admission keeps
every leaf, but for the last link, which only grows, and records what it writes; a call that
raises has written the identity of the plan at most; a plan to which the policy did not come
from elsewhere has every default once a call has succeeded; and the policy is set once at most,
and never where it was from the start. -/
theorem admission_never_refills [DecidableEq ι] {party : ι → Party ι}
    (others : ∀ i program, party i = .writer program → OtherWriter program)
    {plan : Option Doc} (ranked : ∀ doc, plan = some doc → (Value.document doc).Ranked)
    {es : List (ι × Label)} {pool : Parties ι}
    (run : Run Program.Step (parties sellerId party plan) es pool) :
    (∀ i now pilotSeed, party i = .admission now pilotSeed →
      (∀ label pool', Program.Step pool (i, label) pool' →
        Admits sellerId i pool.shared pool'.shared ∧
        ∀ doc, pool.shared.plan = some doc →
          ∃ doc', pool'.shared.plan = some doc' ∧ KeepsLeaves doc doc') ∧
      (∀ error, pool.control i = .ret (.error error) →
        ∀ w ∈ pool.shared.writes, w.1 = i → w.2 = .identity) ∧
      (pool.control i = .ret (.ok ⟨⟩) → (∀ doc, plan = some doc → doc.get? "policy_version" = none) →
        ∃ doc, pool.shared.plan = some doc ∧ HasDefaults doc)) ∧
    policies pool.shared ≤ 1 ∧
    ∀ doc, plan = some doc → (doc.get? "policy_version").isSome → policies pool.shared = 0 := by
  let start₀ : Plans ι := ⟨plan, []⟩
  let contracts (i : ι) := (party i).contract sellerId start₀ i
  have sound₀ : Sound start₀ start₀ :=
    ⟨ranked, id, fun h h' => absurd h' h, Nat.zero_le _, fun _ => rfl⟩
  have compatible (i j : ι) (hij : i ≠ j) (s t : Plans ι) (h : (contracts i).guar s t) :
      (contracts j).rely s t := by
    obtain ⟨hsound, hfilled, hclean⟩ := Party.keeps h
    cases hj : party j with
    | admission now pilotSeed =>
        show ((party j).contract sellerId start₀ j).rely s t
        rw [hj]
        exact ⟨hsound, hfilled, hclean j hij⟩
    | writer program =>
        show ((party j).contract sellerId start₀ j).rely s t
        rw [hj]
        trivial
  have hstart (i : ι) : Program.Meets (contracts i) (fun _ _ => True)
      ((parties sellerId party plan).control i) start₀ := by
    show Program.Meets ((party i).contract sellerId start₀ i) _ ((party i).program sellerId i) _
    cases hi : party i with
    | admission now pilotSeed =>
        exact admitHistoryOnboarding_triple start₀ ⟨sound₀, fun w mem => by cases mem⟩
    | writer program =>
        exact (others i program hi).meets (fun _ _ h => h) (fun _ _ => trivial) start₀
  have sound : Sound start₀ pool.shared :=
    Program.invariant_of_run (c := contracts) (I := Sound start₀) compatible hstart sound₀
      (fun i s t hs h => (Party.keeps h).1 hs) (Program.always run)
  refine ⟨fun i now pilotSeed hi => ⟨fun label pool' step => ?_, fun error hreturned => ?_,
    fun hreturned hfresh => ?_⟩, sound.once, fun doc hdoc hversion => ?_⟩
  · have hguar := Program.guar_of_step (c := contracts) compatible hstart (Program.always run)
      (Program.always_step step)
    have hstep : Admits sellerId i pool.shared pool'.shared := by
      have h : ((party i).contract sellerId start₀ i).guar pool.shared pool'.shared := hguar
      rw [hi] at h
      exact h
    exact ⟨hstep, fun doc hdoc => hstep.keepsLeaves hdoc⟩
  · have hpost : ((party i).contract sellerId start₀ i).post _ _ :=
      Program.post_of_run (c := contracts) compatible hstart (Program.always run) hreturned
    rw [hi] at hpost
    exact hpost
  · have hpost : ((party i).contract sellerId start₀ i).post _ _ :=
      Program.post_of_run (c := contracts) compatible hstart (Program.always run) hreturned
    rw [hi] at hpost
    refine hpost ?_
    rintro ⟨doc, hdoc, hversion⟩
    rw [hfresh doc hdoc] at hversion
    cases hversion
  · exact sound.first fun _ => ⟨doc, hdoc, hversion⟩

/-- Whether a call has returned without raising. -/
def succeeded (pool : Parties ι) (i : ι) : Bool :=
  match pool.control i with
  | .ret (.ok _) => true
  | _ => false

theorem returned_of_succeeded {pool : Parties ι} (h : succeeded pool i = true) :
    pool.control i = .ret (.ok ⟨⟩) := by
  unfold succeeded at h
  split at h
  · next hcontrol => exact hcontrol
  · cases h

/-- A writer that adds the identity of a plan where there is none. -/
def planner (sellerId : String) (now : Int) :
    Program Label (Plans ι) (Except AdmissionError PUnit) :=
  .atomic .other (fun s => match s.plan with
    | some _ => s
    | none => ⟨some (identity sellerId now), s.writes⟩) fun _ => .ret (.ok ⟨⟩)

theorem planner_other {now : Int} :
    OtherWriter (planner sellerId now : Program Label (Plans ι) (Except AdmissionError PUnit)) := by
  refine ⟨fun s => ?_, fun _ => trivial⟩
  obtain ⟨_ | plan, writes⟩ := s
  · refine ⟨rfl, fun _ plan h => ?_, ⟨?_, ?_⟩, ?_⟩
    · obtain rfl := Option.some.inj h
      exact Value.ranked_of_plain rfl
    · rintro ⟨plan, h, hversion⟩
      obtain rfl := Option.some.inj h
      cases hversion
    · rintro ⟨plan, h, -⟩
      cases h
    · rintro ⟨plan, h, -⟩
      cases h
  · exact ⟨rfl, id, Iff.rfl, id⟩

/-- The planner of history before there was a policy, and an account that is linked. -/
def plannerAndLink : Bool → Party Bool
  | false => .writer (planner "82" 1785456000000000)
  | true => .admission 1785456000123456 false

theorem plannerAndLink_filled :
    ∃ es, ∃ pool : Parties Bool, Run Program.Step (parties "82" plannerAndLink none) es pool ∧
      policies pool.shared ≤ 1 ∧ ∃ doc, pool.shared.plan = some doc ∧ HasDefaults doc := by
  have hrun : (perform Program.next [false, true, true, true, true]
      (parties "82" plannerAndLink none)).any (fun result => succeeded result.2 true) = true := by
    decide +kernel
  obtain ⟨⟨es, pool⟩, hperform, hresult⟩ := (Option.any_eq_true _ _).mp hrun
  have run := Program.run_of_schedule hperform
  have hreturned : pool.control true = .ret (.ok ⟨⟩) := returned_of_succeeded hresult
  have others : ∀ i program, plannerAndLink i = .writer program → OtherWriter program := by
    intro i program h
    cases i with
    | false =>
        cases h
        exact planner_other
    | true => cases h
  have ranked : ∀ doc, none = some doc → (Value.document doc).Ranked := fun _ h => by cases h
  have kept := admission_never_refills others ranked run
  obtain ⟨-, -, hfilled⟩ := kept.1 true _ _ rfl
  exact ⟨es, pool, run, kept.2.1, hfilled hreturned fun _ h => by cases h⟩

/-- A plan that brought the policy's version but none of its leaves. -/
def versionedPlan : Doc :=
  [("_id", .string "82"), ("seller_id", .string "82"), ("cutoff", .date 1785456000000000),
    ("policy_version", .string policyVersion)]

/-- A call succeeds on it and adds nothing but the last link. -/
theorem versionedPlan_unfilled :
    ¬ ∀ es, ∀ pool : Parties Unit,
      Run Program.Step (parties "82" (fun _ => .admission 1785456000123456 false)
        (some versionedPlan)) es pool →
      pool.control () = .ret (.ok ⟨⟩) → ∃ doc, pool.shared.plan = some doc ∧ HasDefaults doc := by
  intro h
  have hrun : (perform Program.next [(), (), ()] (parties "82"
      (fun _ : Unit => .admission 1785456000123456 false) (some versionedPlan))).any (fun result =>
        succeeded result.2 () &&
          result.2.shared.plan.all fun doc => (doc.at? ["state"]).isNone) = true := by
    decide +kernel
  obtain ⟨⟨es, pool⟩, hperform, hresult⟩ := (Option.any_eq_true _ _).mp hrun
  obtain ⟨hsucceeded, hnone⟩ := Bool.and_eq_true_iff.mp hresult
  obtain ⟨doc, hdoc, hdefaults⟩ := h es pool (Program.run_of_schedule hperform)
    (returned_of_succeeded hsucceeded)
  have hstate : (doc.at? ["state"]).isSome := hdefaults 0 0 0 false ["state"] rfl
  rw [hdoc] at hnone
  have hnone : (doc.at? ["state"]).isNone := hnone
  rw [Option.isNone_iff_eq_none.mp hnone] at hstate
  cases hstate

end ZelerPlatform.History.Onboarding
