import Mathlib.Data.List.Infix
import Mathlib.Data.Option.Basic
import ZelerPlatform.Library.Mongo.Path

/-!
# Writing along dotted paths

`$set` of a dotted path writes below the documents on its way. A path does not see what is
written along another one when neither begins the other, and a write where nothing was keeps
every value that is not a document. Documents that compare equal have the same paths.
-/

namespace Mongo

/-- Paths, and the values to be set there. -/
abbrev Patch := List (List String × Value)

/-- Neither path begins the other. -/
def Apart (p q : List String) : Prop := ¬ p <+: q ∧ ¬ q <+: p

theorem Apart.symm {p q : List String} (h : Apart p q) : Apart q p := ⟨h.2, h.1⟩

theorem Apart.cons {p q : List String} (key : String) (h : Apart p q) :
    Apart (key :: p) (key :: q) :=
  ⟨fun hp => h.1 (List.prefix_cons_inj key |>.mp hp),
    fun hq => h.2 (List.prefix_cons_inj key |>.mp hq)⟩

theorem Apart.of_head {p q : List String} {j k : String} (h : j ≠ k) :
    Apart (j :: p) (k :: q) :=
  ⟨fun hp => h (List.cons_prefix_cons.mp hp).1, fun hq => h (List.cons_prefix_cons.mp hq).1.symm⟩

namespace Value

/-- The same value, or a document in the place of a document. -/
def Grown (v w : Value) : Prop := w = v ∨ ∃ c d, v = document c ∧ w = document d

theorem Grown.refl (v : Value) : v.Grown v := .inl rfl

theorem Grown.trans {u v w : Value} (h : u.Grown v) (h' : v.Grown w) : u.Grown w := by
  obtain rfl | ⟨c, d, rfl, rfl⟩ := h
  · exact h'
  · obtain rfl | ⟨c', d', hc, rfl⟩ := h'
    · exact .inr ⟨c, d, rfl, rfl⟩
    · exact .inr ⟨c, d', rfl, rfl⟩

theorem follow_append {p q : List String} {v : Value} :
    v.follow (p ++ q) = (v.follow p).bind (follow q) := by
  induction p generalizing v with
  | nil => rfl
  | cons key p ih =>
      cases v with
      | document fields =>
          show (fields.lookup key).bind (follow (p ++ q)) =
            ((fields.lookup key).bind (follow p)).bind (follow q)
          cases fields.lookup key with
          | none => rfl
          | some next => exact ih
      | _ => rfl

end Value

namespace Doc

/-- `$set` of one path; `none` where the server refuses it, because something other than a
document lies on the way. -/
def setPath : List String → Value → Doc → Option Doc
  | [], _, _ => none
  | [key], value, doc => some (doc.set key value)
  | key :: next :: rest, value, doc =>
      match (doc.get? key).getD (.document []) with
      | .document inner => (setPath (next :: rest) value inner).map (doc.set key ∘ .document)
      | _ => none

/-- `$set` of a patch. -/
def applyPatch : Patch → Doc → Option Doc
  | [], doc => some doc
  | (path, value) :: rest, doc => (doc.setPath path value).bind (applyPatch rest)

/-- The value at the end of a path. -/
def at? (doc : Doc) (path : List String) : Option Value := (Value.document doc).follow path

/-- Every value that is not a document is still where it was. -/
def Extends (doc doc' : Doc) : Prop :=
  ∀ path v, doc.at? path = some v → ∃ w, doc'.at? path = some w ∧ v.Grown w

variable {doc doc' : Doc} {p q : List String} {key : String} {v w : Value}

theorem at?_nil : doc.at? [] = some (.document doc) := rfl

theorem at?_cons : doc.at? (key :: p) = (doc.get? key).bind (Value.follow p) := rfl

theorem Extends.refl (doc : Doc) : doc.Extends doc := fun _ v h => ⟨v, h, .refl v⟩

theorem Extends.trans {doc'' : Doc} (h : doc.Extends doc') (h' : doc'.Extends doc'') :
    doc.Extends doc'' := by
  intro path v hv
  obtain ⟨w, hw, hvw⟩ := h path v hv
  obtain ⟨x, hx, hwx⟩ := h' path w hw
  exact ⟨x, hx, hvw.trans hwx⟩

/-- Below nothing there is nothing. -/
theorem at?_below_missing (missing : doc.at? p = none) (h : p <+: q) : doc.at? q = none := by
  obtain ⟨rest, rfl⟩ := h
  show (Value.document doc).follow (p ++ rest) = none
  rw [Value.follow_append, show (Value.document doc).follow p = none from missing]
  rfl

/-! ### One write -/

/-- What a write below a field does to the document. -/
theorem setPath_below {next : String} {rest : List String}
    (h : doc.setPath (key :: next :: rest) v = some doc') :
    ∃ inner inner', (doc.get? key).getD (.document []) = .document inner ∧
      Doc.setPath (next :: rest) v inner = some inner' ∧ doc' = doc.set key (.document inner') := by
  rw [setPath] at h
  cases hfield : (doc.get? key).getD (.document []) with
  | document inner =>
      rw [hfield] at h
      obtain ⟨inner', hinner, rfl⟩ := Option.map_eq_some_iff.mp h
      exact ⟨inner, inner', rfl, hinner, rfl⟩
  | _ => simp [hfield] at h

theorem at?_setPath_self (h : doc.setPath p v = some doc') : doc'.at? p = some v := by
  induction p generalizing doc doc' with
  | nil => cases h
  | cons key rest ih =>
      cases rest with
      | nil =>
          obtain rfl := Option.some.inj h
          rw [at?_cons, get?_set, if_pos rfl]
          exact rfl
      | cons next rest =>
          obtain ⟨inner, inner', -, hinner, rfl⟩ := setPath_below h
          rw [at?_cons, get?_set, if_pos rfl]
          exact ih hinner

/-- A path apart from the written one does not see the write. -/
theorem at?_setPath_apart (h : doc.setPath p v = some doc') (apart : Apart p q) :
    doc'.at? q = doc.at? q := by
  induction p generalizing doc doc' q with
  | nil => cases h
  | cons key rest ih =>
      cases q with
      | nil => exact absurd List.nil_prefix apart.2
      | cons k q =>
          by_cases hk : k = key
          · subst hk
            cases rest with
            | nil => exact absurd (List.cons_prefix_cons.mpr ⟨rfl, List.nil_prefix⟩) apart.1
            | cons next rest =>
                obtain ⟨inner, inner', hfield, hinner, rfl⟩ := setPath_below h
                have hq : Apart (next :: rest) q :=
                  ⟨fun hp => apart.1 (List.cons_prefix_cons.mpr ⟨rfl, hp⟩),
                    fun hp => apart.2 (List.cons_prefix_cons.mpr ⟨rfl, hp⟩)⟩
                have hsame := ih hinner hq
                rw [at?_cons, at?_cons, get?_set, if_pos rfl]
                cases hget : doc.get? k with
                | some old =>
                    rw [hget] at hfield
                    obtain rfl : old = .document inner := hfield
                    exact hsame
                | none =>
                    rw [hget] at hfield
                    obtain rfl := Value.document.inj hfield
                    refine hsame.trans ?_
                    cases q with
                    | nil => exact absurd List.nil_prefix hq.2
                    | cons => exact rfl
          · have hsame : doc'.get? k = doc.get? k := by
              cases rest with
              | nil =>
                  obtain rfl := Option.some.inj h
                  rw [get?_set, if_neg hk]
              | cons next rest =>
                  obtain ⟨inner, inner', -, -, rfl⟩ := setPath_below h
                  rw [get?_set, if_neg hk]
            rw [at?_cons, at?_cons, hsame]

/-- What lies on the way of a write was a document, if anything, and is one. -/
theorem setPath_way (h : doc.setPath p v = some doc') (way : q <+: p) (short : q ≠ p) :
    (∃ d, doc'.at? q = some (.document d)) ∧ ∀ w, doc.at? q = some w → ∃ c, w = .document c := by
  induction p generalizing doc doc' q with
  | nil => cases h
  | cons key rest ih =>
      cases q with
      | nil => exact ⟨⟨doc', rfl⟩, fun w hw => ⟨doc, (Option.some.inj hw).symm⟩⟩
      | cons k q =>
          obtain ⟨rfl, hway⟩ := List.cons_prefix_cons.mp way
          cases rest with
          | nil => exact absurd (congrArg (k :: ·) (List.prefix_nil.mp hway)) short
          | cons next rest =>
              obtain ⟨inner, inner', hfield, hinner, rfl⟩ := setPath_below h
              have hshort : q ≠ next :: rest := fun heq => short (heq ▸ rfl)
              obtain ⟨hafter, hbefore⟩ := ih hinner hway hshort
              refine ⟨?_, fun w hw => ?_⟩
              · rw [at?_cons, get?_set, if_pos rfl]
                exact hafter
              · rw [at?_cons] at hw
                cases hget : doc.get? k with
                | none =>
                    rw [hget] at hw
                    cases hw
                | some old =>
                    rw [hget] at hfield hw
                    obtain rfl : old = .document inner := hfield
                    exact hbefore w hw

/-- A write where nothing was keeps everything else. -/
theorem extends_setPath (h : doc.setPath p v = some doc') (missing : doc.at? p = none) :
    doc.Extends doc' := by
  intro q w hw
  by_cases hp : p <+: q
  · rw [at?_below_missing missing hp] at hw
    cases hw
  · by_cases hq : q <+: p
    · obtain ⟨⟨d, hd⟩, hbefore⟩ := setPath_way h hq fun heq => hp (heq ▸ List.prefix_rfl)
      obtain ⟨c, rfl⟩ := hbefore w hw
      exact ⟨.document d, hd, .inr ⟨c, d, rfl, rfl⟩⟩
    · exact ⟨w, (at?_setPath_apart h ⟨hp, hq⟩).trans hw, .refl w⟩

/-! ### Patches -/

theorem at?_applyPatch_apart {patch : Patch} (h : doc.applyPatch patch = some doc')
    (apart : ∀ e ∈ patch, Apart e.1 q) : doc'.at? q = doc.at? q := by
  induction patch generalizing doc with
  | nil =>
      obtain rfl := Option.some.inj h
      rfl
  | cons e rest ih =>
      obtain ⟨mid, hfirst, hrest⟩ := Option.bind_eq_some_iff.mp h
      exact (ih hrest fun e' mem => apart e' (List.mem_cons_of_mem _ mem)).trans
        (at?_setPath_apart hfirst (apart e List.mem_cons_self))

/-- A patch of what is missing keeps what is there and adds all it has. -/
theorem extends_applyPatch {patch : Patch} (h : doc.applyPatch patch = some doc')
    (missing : ∀ e ∈ patch, doc.at? e.1 = none)
    (apart : patch.Pairwise fun a b => Apart a.1 b.1) :
    doc.Extends doc' ∧ ∀ e ∈ patch, doc'.at? e.1 = some e.2 := by
  induction patch generalizing doc with
  | nil =>
      obtain rfl := Option.some.inj h
      exact ⟨.refl doc, fun e mem => by cases mem⟩
  | cons e rest ih =>
      obtain ⟨mid, hfirst, hrest⟩ := Option.bind_eq_some_iff.mp h
      obtain ⟨hhead, htail⟩ := List.pairwise_cons.mp apart
      have hmissing : ∀ e' ∈ rest, mid.at? e'.1 = none := fun e' mem =>
        (at?_setPath_apart hfirst (hhead e' mem)).trans (missing e' (List.mem_cons_of_mem _ mem))
      obtain ⟨hextends, hset⟩ := ih hrest hmissing htail
      refine ⟨(extends_setPath hfirst (missing e List.mem_cons_self)).trans hextends, ?_⟩
      intro e' mem
      cases mem with
      | head =>
          rw [at?_applyPatch_apart hrest fun e'' mem => (hhead e'' mem).symm]
          exact at?_setPath_self hfirst
      | tail _ mem => exact hset e' mem

end Doc

/-! ### Documents that compare equal -/

namespace Value

/-- Nothing in the document but documents has their place in the comparison order. -/
def Ranked (v : Value) : Prop := ∀ path r s, v.follow path = some (other r s) → r ≠ 20

variable {v w : Value} {path : List String}

theorem Ranked.at_follow (h : v.Ranked) (hw : v.follow path = some w) : w.Ranked := by
  intro rest r s hs
  refine h (path ++ rest) r s ?_
  rw [follow_append, hw]
  exact hs

/-- The fields of documents that compare equal. -/
theorem lookup_of_compareFields {xs ys : List (String × Value)}
    (h : compareFields xs ys = .eq) (key : String) :
    Option.Rel (fun x y => x.compare y = .eq) (xs.lookup key) (ys.lookup key) := by
  induction xs generalizing ys with
  | nil =>
      cases ys with
      | nil => exact .none
      | cons => cases h
  | cons field xs ih =>
      obtain ⟨k, x⟩ := field
      cases ys with
      | nil => cases h
      | cons field' ys =>
          obtain ⟨k', y⟩ := field'
          simp only [compareFields, Ordering.then_eq_eq] at h
          obtain ⟨-, hkey, hvalue, hrest⟩ := h
          obtain rfl := Std.LawfulEqCmp.eq_of_compare hkey
          by_cases hk : key = k
          · subst hk
            rw [List.lookup_cons_self, List.lookup_cons_self]
            exact .some hvalue
          · rw [List.lookup_cons, List.lookup_cons, beq_false_of_ne hk]
            exact ih hrest

/-- Only a document compares equal to a document. -/
theorem document_of_compare {fields : Doc} (h : (document fields).compare w = .eq)
    (ranked : w.Ranked) :
    ∃ fields', w = document fields' ∧ compareFields fields fields' = .eq := by
  cases w with
  | document fields' => exact ⟨fields', rfl, h⟩
  | other r s =>
      have hrank : Ord.compare 20 r = .eq := h
      exact absurd (Std.LawfulEqCmp.eq_of_compare hrank).symm (ranked [] r s rfl)
  | _ => cases h

theorem document_of_compare' {fields : Doc} (h : v.compare (document fields) = .eq)
    (ranked : v.Ranked) :
    ∃ fields', v = document fields' ∧ compareFields fields' fields = .eq := by
  cases v with
  | document fields' => exact ⟨fields', rfl, h⟩
  | other r s =>
      have hrank : Ord.compare r 20 = .eq := h
      exact absurd (Std.LawfulEqCmp.eq_of_compare hrank) (ranked [] r s rfl)
  | _ => cases h

/-- Documents that compare equal have the same paths. -/
theorem isSome_follow_of_compare (h : v.compare w = .eq) (hv : v.Ranked) (hw : w.Ranked) :
    (v.follow path).isSome = (w.follow path).isSome := by
  induction path generalizing v w with
  | nil => rfl
  | cons key rest ih =>
      have hbelow {xs ys : Doc} (hv : (document xs).Ranked) (hw : (document ys).Ranked)
          (h : compareFields xs ys = .eq) : ((document xs).follow (key :: rest)).isSome =
            ((document ys).follow (key :: rest)).isSome := by
        show ((xs.lookup key).bind (follow rest)).isSome = ((ys.lookup key).bind (follow rest)).isSome
        have hfields := lookup_of_compareFields h key
        cases hx : xs.lookup key with
        | none =>
            rw [hx] at hfields
            cases hy : ys.lookup key with
            | none => rfl
            | some y =>
                rw [hy] at hfields
                cases hfields
        | some x =>
            rw [hx] at hfields
            cases hy : ys.lookup key with
            | none =>
                rw [hy] at hfields
                cases hfields
            | some y =>
                rw [hy] at hfields
                have hreach {zs : Doc} {z : Value} (hz : zs.lookup key = some z) :
                    (document zs).follow [key] = some z := by
                  show (zs.lookup key).bind (follow []) = some z
                  rw [hz]
                  rfl
                cases hfields with
                | some hxy => exact ih hxy (hv.at_follow (hreach hx)) (hw.at_follow (hreach hy))
      cases v with
      | document xs =>
          obtain ⟨ys, rfl, hfields⟩ := document_of_compare h hw
          exact hbelow hv hw hfields
      | _ =>
          cases w with
          | document ys =>
              obtain ⟨xs, hxs, -⟩ := document_of_compare' h hv
              cases hxs
          | _ => rfl

/-! ### Computed properties of documents -/

mutual

/-- All on the paths is of a type that is written out. -/
def plain : Value → Bool
  | document fields => plainFields fields
  | other _ _ => false
  | _ => true

def plainFields : List (String × Value) → Bool
  | [] => true
  | (_, v) :: rest => plain v && plainFields rest

end

theorem plain_of_lookup {fields : List (String × Value)} (h : plainFields fields = true)
    {key : String} (hv : fields.lookup key = some v) : v.plain = true := by
  induction fields with
  | nil => cases hv
  | cons field rest ih =>
      obtain ⟨k, x⟩ := field
      obtain ⟨hx, hrest⟩ : x.plain = true ∧ plainFields rest = true := by
        simpa [plainFields] using h
      rw [List.lookup_cons] at hv
      by_cases hk : (key == k) = true
      · rw [hk] at hv
        obtain rfl := Option.some.inj hv
        exact hx
      · rw [Bool.not_eq_true] at hk
        rw [hk] at hv
        exact ih hrest hv

theorem plain_of_follow (h : v.plain = true) (hw : v.follow path = some w) : w.plain = true := by
  induction path generalizing v with
  | nil =>
      obtain rfl := Option.some.inj hw
      exact h
  | cons key rest ih =>
      cases v with
      | document fields =>
          obtain ⟨next, hnext, hrest⟩ := Option.bind_eq_some_iff.mp hw
          exact ih (plain_of_lookup h hnext) hrest
      | _ => cases hw

theorem ranked_of_plain (h : v.plain = true) : v.Ranked := by
  intro path r s hs
  cases plain_of_follow h hs

mutual

/-- The keys of a document and of the documents in it. -/
def shape : Value → Value
  | document fields => document (shapeFields fields)
  | _ => null

def shapeFields : List (String × Value) → List (String × Value)
  | [] => []
  | (key, v) :: rest => (key, shape v) :: shapeFields rest

end

theorem lookup_shapeFields {fields : List (String × Value)} {key : String} :
    (shapeFields fields).lookup key = (fields.lookup key).map shape := by
  induction fields with
  | nil => rfl
  | cons field rest ih =>
      obtain ⟨k, v⟩ := field
      rw [shapeFields, List.lookup_cons, List.lookup_cons]
      cases key == k with
      | true => rfl
      | false => exact ih

/-- The paths of a document are those of its shape. -/
theorem isSome_follow_shape : (v.shape.follow path).isSome = (v.follow path).isSome := by
  induction path generalizing v with
  | nil => rfl
  | cons key rest ih =>
      cases v with
      | document fields =>
          show (((shapeFields fields).lookup key).bind (follow rest)).isSome =
            ((fields.lookup key).bind (follow rest)).isSome
          rw [lookup_shapeFields]
          cases fields.lookup key with
          | none => rfl
          | some next => exact ih
      | _ => rfl

end Value

namespace Doc

variable {doc doc' : Doc} {p : List String} {key : String} {v : Value}

/-- A write of a ranked value leaves a ranked document. -/
theorem ranked_setPath (h : doc.setPath p v = some doc') (hdoc : (Value.document doc).Ranked)
    (hv : v.Ranked) : (Value.document doc').Ranked := by
  intro q r s hs
  by_cases hp : p <+: q
  · obtain ⟨rest, rfl⟩ := hp
    rw [Value.follow_append, show (Value.document doc').follow p = some v from at?_setPath_self h]
      at hs
    exact hv rest r s hs
  · by_cases hq : q <+: p
    · obtain ⟨⟨d, hd⟩, -⟩ := setPath_way h hq fun heq => hp (heq ▸ List.prefix_rfl)
      cases hd.symm.trans hs
    · exact hdoc q r s ((at?_setPath_apart h ⟨hp, hq⟩).symm.trans hs)

theorem ranked_applyPatch {patch : Patch} (h : doc.applyPatch patch = some doc')
    (hdoc : (Value.document doc).Ranked) (hvalues : ∀ e ∈ patch, e.2.Ranked) :
    (Value.document doc').Ranked := by
  induction patch generalizing doc with
  | nil =>
      obtain rfl := Option.some.inj h
      exact hdoc
  | cons e rest ih =>
      obtain ⟨mid, hfirst, hrest⟩ := Option.bind_eq_some_iff.mp h
      exact ih hrest (ranked_setPath hfirst hdoc (hvalues e List.mem_cons_self))
        fun e' mem => hvalues e' (List.mem_cons_of_mem _ mem)

end Doc

end Mongo
