import ZelerPlatform.Library.Exec

/-!
# Triples for calls side by side

`Triple F P p Q E` says that the call `p`, begun in a state with `P`, keeps the guarantee of the
frame `F` while the others keep its rely, and ends in `Q` or raises in `E`. Assertions are
stable: the others do not break them. A block is proved statement by statement, and what
neither side breaks can be carried along.
-/

namespace Transition

universe u v w

/-- What a call relies on, what it guarantees and when its operations are allowed. -/
structure Frame (L : Type u) (S : Type v) where
  rely : S → S → Prop
  guar : S → S → Prop
  allowed : S → L → Prop
  refl : ∀ s, rely s s
  trans : ∀ {s t u}, rely s t → rely t u → rely s u

namespace Frame

variable {L : Type u} {S : Type v} {ε A B : Type w} (F : Frame L S)

/-- An assertion the others do not break. -/
def Stable (P : S → Prop) : Prop := ∀ s t, F.rely s t → P s → P t

/-- The contract of the frame with a postcondition. -/
def contract (Q : A → S → Prop) (E : ε → S → Prop) : Contract S (Except ε A) where
  rely := F.rely
  guar := F.guar
  post r s := match r with
    | .ok a => Q a s
    | .error e => E e s
  refl := F.refl
  trans := F.trans

def Triple (P : S → Prop) (p : ExceptT ε (Program L S) A) (Q : A → S → Prop) (E : ε → S → Prop) :
    Prop :=
  ∀ s, P s → Program.Meets (F.contract Q E) F.allowed p.run s

variable {F} {P P' R : S → Prop} {Q Q' : A → S → Prop} {E E' : ε → S → Prop}

theorem Stable.and (hP : F.Stable P) (hR : F.Stable R) : F.Stable fun s => P s ∧ R s :=
  fun s t h ⟨hp, hr⟩ => ⟨hP s t h hp, hR s t h hr⟩

theorem Stable.pure {c : Prop} : F.Stable fun _ => c := fun _ _ _ h => h

namespace Triple

variable {p : ExceptT ε (Program L S) A} {k : A → ExceptT ε (Program L S) B}
variable {T : B → S → Prop}

theorem consequence (h : F.Triple P p Q E) (pre : ∀ s, P' s → P s)
    (post : ∀ a s, Q a s → Q' a s) (raised : ∀ e s, E e s → E' e s) : F.Triple P' p Q' E' := by
  intro s hs
  refine (h s (pre s hs)).weaken ?_
  rintro (e | a) t ht
  · exact raised e t ht
  · exact post a t ht

theorem pre (h : F.Triple P p Q E) (hpre : ∀ s, P' s → P s) : F.Triple P' p Q E :=
  h.consequence hpre (fun _ _ h => h) fun _ _ h => h

/-- What the precondition says without the state. -/
theorem with_fact {c : Prop} (fact : ∀ s, P s → c) (h : c → F.Triple P p Q E) :
    F.Triple P p Q E := fun s hs => h (fact s hs) s hs

theorem lift {x : Except ε A} (hQ : ∀ a, x = .ok a → F.Stable (Q a))
    (hE : ∀ e, x = .error e → F.Stable (E e)) (ok : ∀ a s, x = .ok a → P s → Q a s)
    (raised : ∀ e s, x = .error e → P s → E e s) :
    F.Triple P (ExceptT.mk (Pure.pure x)) Q E := by
  intro s hs t hst
  cases x with
  | ok a => exact hQ a rfl s t hst (ok a s rfl hs)
  | error e => exact hE e rfl s t hst (raised e s rfl hs)

theorem pure {a : A} (hQ : F.Stable (Q a)) (h : ∀ s, P s → Q a s) :
    F.Triple P (Pure.pure a : ExceptT ε (Program L S) A) Q E :=
  fun s hs t hst => hQ s t hst (h s hs)

/-- One operation. -/
theorem op {label : L} {f : S → Except ε A × S} (hP : F.Stable P) (hQ : ∀ a, F.Stable (Q a))
    (hE : ∀ e, F.Stable (E e))
    (h : ∀ s, P s → F.allowed s label → F.guar s (f s).2 ∧
      match (f s).1 with
      | .ok a => Q a (f s).2
      | .error e => E e (f s).2) :
    F.Triple P (ExceptT.mk (Program.act label f)) Q E := by
  intro s hs
  refine Program.Meets.last (c := F.contract Q E) fun t hst hallowed => ?_
  obtain ⟨hguar, hpost⟩ := h t (hP s t hst hs) hallowed
  refine ⟨hguar, fun u htu => ?_⟩
  generalize (f t).1 = r at hpost ⊢
  cases r with
  | ok a => exact hQ a _ u htu hpost
  | error e => exact hE e _ u htu hpost

theorem bind (first : F.Triple P p Q E) (next : ∀ a, F.Triple (Q a) (k a) T E)
    (hE : ∀ e, F.Stable (E e)) : F.Triple P (p >>= k) T E := by
  intro s hs
  show Program.Meets _ _ (p.run >>= _) s
  have hfirst : Program.Meets (F.contract Q E) _ p.run s := first s hs
  refine hfirst.bind (fun _ _ h => h) (fun _ _ h => h) ?_
  rintro (e | a) t ht
  · exact fun u htu => hE e t u htu ht
  · exact next a t ht

/-- The outcome of a call as a value. -/
theorem outcome (h : F.Triple P p Q E) (hQ : ∀ a, F.Stable (Q a)) (hE : ∀ e, F.Stable (E e))
    {E'' : ε → S → Prop} :
    F.Triple P (ExceptT.mk (do return .ok (← p.run)) : ExceptT ε (Program L S) (Except ε A))
      (fun r s => match r with
        | .ok a => Q a s
        | .error e => E e s) E'' := by
  intro s hs
  show Program.Meets _ _ (p.run >>= _) s
  have hp : Program.Meets (F.contract Q E) _ p.run s := h s hs
  refine hp.bind (fun _ _ h => h) (fun _ _ h => h) ?_
  rintro (e | a) t ht u htu
  · exact hE e t u htu ht
  · exact hQ a t u htu ht

/-- What neither the others nor the guarantee break is carried along. -/
theorem frame (h : F.Triple P p Q E) (hrely : F.Stable R)
    (hguar : ∀ s t, F.guar s t → R s → R t) :
    F.Triple (fun s => P s ∧ R s) p (fun a s => Q a s ∧ R s) fun e s => E e s ∧ R s := by
  rintro s ⟨hs, hr⟩
  refine (Program.Meets.frame (c := F.contract Q E) (P := R) hrely hguar hr (h s hs)).weaken ?_
  rintro (e | a) t ht
  · exact ht
  · exact ht

end Triple

/-! ### Under an invariant -/

/-- An invariant the others keep. -/
structure Kept (F : Frame L S) where
  holds : S → Prop
  stable : F.Stable holds

namespace Kept

variable {I : F.Kept}

/-- An assertion that the others do not break and that implies the invariant. -/
structure Holds (I : F.Kept) (P : S → Prop) : Prop where
  stable : F.Stable P
  sound : ∀ s, P s → I.holds s

theorem Holds.self : I.Holds I.holds := ⟨I.stable, fun _ h => h⟩

theorem Holds.and (h : I.Holds P) (hR : F.Stable R) : I.Holds fun s => P s ∧ R s :=
  ⟨h.stable.and hR, fun s hs => h.sound s hs.1⟩

/-- A call that ends in `Q` or raises, under the invariant in both cases. -/
def Spec (I : F.Kept) (P : S → Prop) (p : ExceptT ε (Program L S) A) (Q : A → S → Prop) : Prop :=
  F.Triple P p (fun a s => I.holds s ∧ Q a s) fun _ => I.holds

namespace Spec

variable {p : ExceptT ε (Program L S) A} {k : A → ExceptT ε (Program L S) B}
variable {T : B → S → Prop}

theorem lift {x : Except ε A} (hP : I.Holds P) (hQ : ∀ a, F.Stable (Q a))
    (h : ∀ a s, x = .ok a → P s → Q a s) : I.Spec P (ExceptT.mk (Pure.pure x)) Q :=
  Triple.lift (fun a _ => I.stable.and (hQ a)) (fun _ _ => I.stable)
    (fun a s hx hs => ⟨hP.sound s hs, h a s hx hs⟩) fun _ s _ hs => hP.sound s hs

theorem pure {a : A} (hP : I.Holds P) (hQ : F.Stable (Q a)) (h : ∀ s, P s → Q a s) :
    I.Spec P (Pure.pure a : ExceptT ε (Program L S) A) Q :=
  Triple.pure (I.stable.and hQ) fun s hs => ⟨hP.sound s hs, h s hs⟩

theorem raise {e : ε} (hP : I.Holds P) :
    I.Spec P (ExceptT.mk (Pure.pure (.error e)) : ExceptT ε (Program L S) A) Q :=
  Triple.lift (fun _ h => by cases h) (fun _ _ => I.stable) (fun _ _ h => by cases h)
    fun _ s _ hs => hP.sound s hs

theorem bind (first : I.Spec P p Q)
    (next : ∀ a, I.Spec (fun s => I.holds s ∧ Q a s) (k a) T) : I.Spec P (p >>= k) T :=
  Triple.bind first next fun _ => I.stable

theorem pre (h : I.Spec P p Q) (hpre : ∀ s, P' s → P s) : I.Spec P' p Q := Triple.pre h hpre

theorem post (h : I.Spec P p Q) (hpost : ∀ a s, I.holds s → Q a s → Q' a s) : I.Spec P p Q' :=
  Triple.consequence h (fun _ hs => hs) (fun a s hs => ⟨hs.1, hpost a s hs.1 hs.2⟩) fun _ _ hs => hs

theorem with_fact {c : Prop} (fact : ∀ s, P s → c) (h : c → I.Spec P p Q) : I.Spec P p Q :=
  Triple.with_fact fact h

theorem frame (h : I.Spec P p Q) (hrely : F.Stable R) (hguar : ∀ s t, F.guar s t → R s → R t) :
    I.Spec (fun s => P s ∧ R s) p fun a s => Q a s ∧ R s :=
  Triple.consequence (Triple.frame h hrely hguar) (fun _ hs => hs)
    (fun _ _ hs => ⟨hs.1.1, hs.1.2, hs.2⟩) fun _ _ hs => hs.1

/-- A guarded block and what follows each of its outcomes. -/
theorem attempt {k : Except ε A → ExceptT ε (Program L S) B} (first : I.Spec P p Q)
    (hQ : ∀ a, F.Stable (Q a)) (hrely : F.Stable R) (hguar : ∀ s t, F.guar s t → R s → R t)
    (returned : ∀ a, I.Spec (fun s => I.holds s ∧ Q a s ∧ R s) (k (.ok a)) T)
    (raised : ∀ e, I.Spec (fun s => I.holds s ∧ R s) (k (.error e)) T) :
    I.Spec (fun s => P s ∧ R s) ((ExceptT.mk (do return .ok (← p.run)) :
      ExceptT ε (Program L S) (Except ε A)) >>= k) T := by
  have hcarried := Triple.frame first hrely hguar
  refine Triple.bind (Triple.outcome hcarried (fun a => (I.stable.and (hQ a)).and hrely)
    fun _ => I.stable.and hrely) (fun r => ?_) fun _ => I.stable
  cases r with
  | ok a => exact (returned a).pre fun s hs => ⟨hs.1.1, hs.1.2, hs.2⟩
  | error e => exact raised e

end Spec

end Kept

/-! ### Nobody else -/

/-- The frame of a call on its own: nobody else changes the state. -/
def alone : Frame L S where
  rely s t := t = s
  guar _ _ := True
  allowed _ _ := True
  refl _ := rfl
  trans h h' := h'.trans h

theorem alone_stable (P : S → Prop) : (alone : Frame L S).Stable P := by
  rintro s t rfl h
  exact h

theorem meets_alone {A : Type w} {c : Contract S A} {p : Program L S A} {s : S}
    (h : Program.Meets c (fun _ _ => True) p s) : c.post (p.run s).1 (p.run s).2 := by
  induction p generalizing s with
  | ret a => exact h s (c.refl s)
  | atomic label write next ih => exact ih s (h s (c.refl s) trivial).2

/-- What a triple says of a call on its own. -/
theorem Triple.exec {A : Type} {ε : Type} {p : ExceptT ε (Program L S) A} {P : S → Prop}
    {Q : A → S → Prop} {E : ε → S → Prop} (h : (alone : Frame L S).Triple P p Q E)
    {s : S} (hs : P s) :
    match Program.exec p s with
    | (.ok a, t) => Q a t
    | (.error e, t) => E e t := by
  have hpost := meets_alone (h s hs)
  generalize hexec : Program.exec p s = outcome
  have hrun : p.run.run s = outcome := hexec
  rw [hrun] at hpost
  obtain ⟨e | a, t⟩ := outcome
  · exact hpost
  · exact hpost

end Frame

end Transition
