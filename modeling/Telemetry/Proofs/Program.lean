import Telemetry.Program

/-!
Programs and what they ensure. The calls of a program are answered by its surroundings, and others may
act on the state before every answer; a result is ensured when it holds after every such run.
-/

namespace Telemetry

variable {Call : Type} {Reply : Call → Type} {α β σ : Type}

/-- Who answers the calls of a program, and what others may do to the state before each answer. -/
structure Surroundings (Reply : Call → Type) (σ : Type) where
  Answers : σ → (c : Call) → Reply c → σ → Prop
  Others : σ → σ → Prop

/-- Calls are answered by a function, and nobody else acts. -/
def Surroundings.alone (answer : σ → (c : Call) → Reply c × σ) : Surroundings Reply σ where
  Answers s c r t := answer s c = (r, t)
  Others s t := t = s

namespace Program

/-- However the calls are answered and whatever others do in between, `Q` holds where the program
ends. -/
def Ensures (E : Surroundings Reply σ) (Q : α → σ → Prop) : Program Reply α → σ → Prop
  | .done a, s => Q a s
  | .call c next, s => ∀ u, E.Others s u → ∀ r v, E.Answers u c r v → Ensures E Q (next r) v
  | .log _ next, s => Ensures E Q next s

theorem bind_done (w : Program Reply α) : w.bind .done = w := by
  induction w with
  | done a => rfl
  | call c next ih => exact congrArg (call c) (funext ih)
  | log e next ih => exact congrArg (log e) ih

theorem bind_assoc {γ : Type} (w : Program Reply α) (f : α → Program Reply β)
    (g : β → Program Reply γ) : (w.bind f).bind g = w.bind fun a => (f a).bind g := by
  induction w with
  | done a => rfl
  | call c next ih => exact congrArg (call c) (funext ih)
  | log e next ih => exact congrArg (log e) ih

instance : LawfulMonad (Program Reply) :=
  LawfulMonad.mk' _ bind_done (fun _ _ => rfl) bind_assoc

variable {E : Surroundings Reply σ} {Q R : α → σ → Prop}

@[simp] theorem ensures_done (a : α) (s : σ) : Ensures E Q (.done a) s ↔ Q a s := Iff.rfl

@[simp] theorem ensures_pure (a : α) (s : σ) : Ensures E Q (pure a) s ↔ Q a s := Iff.rfl

@[simp] theorem ensures_report (e : Log.Event) (Q : Unit → σ → Prop) (s : σ) :
    Ensures E Q (report e) s ↔ Q () s := Iff.rfl

theorem ensures_perform {c : Call} {Q : Reply c → σ → Prop} {s : σ} :
    Ensures E Q (perform c) s ↔ ∀ u, E.Others s u → ∀ r v, E.Answers u c r v → Q r v := Iff.rfl

@[simp] theorem ensures_bind (w : Program Reply α) (f : α → Program Reply β)
    (Q : β → σ → Prop) (s : σ) :
    Ensures E Q (w >>= f) s ↔ Ensures E (fun a s => Ensures E Q (f a) s) w s := by
  show Ensures E Q (w.bind f) s ↔ _
  induction w generalizing s with
  | done a => exact Iff.rfl
  | call c next ih =>
    exact forall_congr' fun u => forall_congr' fun _ => forall_congr' fun r =>
      forall_congr' fun v => forall_congr' fun _ => ih r v
  | log e next ih => exact ih s

@[simp] theorem ensures_map (f : α → β) (w : Program Reply α) (Q : β → σ → Prop) (s : σ) :
    Ensures E Q (f <$> w) s ↔ Ensures E (fun a s => Q (f a) s) w s := by
  rw [← bind_pure_comp, ensures_bind]
  rfl

theorem Ensures.mono {w : Program Reply α} {s : σ} (h : Ensures E Q w s)
    (hQ : ∀ a s, Q a s → R a s) : Ensures E R w s := by
  induction w generalizing s with
  | done a => exact hQ a s h
  | call c next ih => exact fun u hu r v hv => ih r (h u hu r v hv)
  | log e next ih => exact ih h

theorem Ensures.and {w : Program Reply α} {s : σ} (h : Ensures E Q w s) (k : Ensures E R w s) :
    Ensures E (fun a s => Q a s ∧ R a s) w s := by
  induction w generalizing s with
  | done a => exact ⟨h, k⟩
  | call c next ih => exact fun u hu r v hv => ih r (h u hu r v hv) (k u hu r v hv)
  | log e next ih => exact ih h k

theorem ensures_true (w : Program Reply α) (s : σ) : Ensures E (fun _ _ => True) w s := by
  induction w generalizing s with
  | done a => trivial
  | call c next ih => exact fun _ _ r v _ => ih r v
  | log e next ih => exact ih s

theorem Ensures.others {w : Program Reply α} {s u : σ} (h : Ensures E Q w s) (hu : E.Others s u)
    (trans : ∀ a b c, E.Others a b → E.Others b c → E.Others a c)
    (hQ : ∀ a s u, Q a s → E.Others s u → Q a u) : Ensures E Q w u := by
  induction w generalizing s u with
  | done a => exact hQ a s u h hu
  | call c next ih => exact fun v hv r x hx => h v (trans s u v hu hv) r x hx
  | log e next ih => exact ih h hu

/-- What is ensured of the states of some surroundings is ensured of the states of another that they
simulate. -/
theorem Ensures.simulate {τ : Type} {F : Surroundings Reply τ} {Sim : σ → τ → Prop}
    {w : Program Reply α} {s : σ} {t : τ} (h : Ensures E Q w s) (hst : Sim s t)
    (others : ∀ {s t t'}, Sim s t → F.Others t t' → ∃ s', E.Others s s' ∧ Sim s' t')
    (answers : ∀ {s t c r t'}, Sim s t → F.Answers t c r t' → ∃ s', E.Answers s c r s' ∧ Sim s' t') :
    Ensures F (fun a t => ∃ s, Q a s ∧ Sim s t) w t := by
  induction w generalizing s t with
  | done a => exact ⟨s, h, hst⟩
  | call c next ih =>
    intro u hu r v hv
    obtain ⟨s', hs', hsu⟩ := others hst hu
    obtain ⟨s'', hs'', hsv⟩ := answers hsu hv
    exact ih r (h s' hs' r s'' hs'') hsv
  | log e next ih => exact ih h hst

theorem runFrom_map (answer : σ → (c : Call) → Reply c × σ) (f : α → β) (w : Program Reply α)
    (logs : List Log.Event) (s : σ) :
    (f <$> w).runFrom answer logs s = ((w.runFrom answer logs s).map f id) := by
  rw [← bind_pure_comp]
  show (w.bind _).runFrom answer logs s = _
  induction w generalizing s logs with
  | done a => rfl
  | call c next ih => exact ih (answer s c).1 logs (answer s c).2
  | log e next ih => exact ih (e :: logs) s

theorem ensures_alone_iff {answer : σ → (c : Call) → Reply c × σ} {w : Program Reply α} {s : σ}
    {logs : List Log.Event} : Ensures (.alone answer) Q w s ↔
      Q (w.runFrom answer logs s).1 (w.runFrom answer logs s).2.1 := by
  induction w generalizing s logs with
  | done a => exact Iff.rfl
  | call c next ih =>
    rw [runFrom, ← ih]
    constructor
    · exact fun h => h s rfl _ _ rfl
    · rintro h u rfl r v hv
      rw [hv] at h
      exact h
  | log e next ih =>
    rw [runFrom, ← ih]
    rfl

/-- The program ends without a call, and `P` holds of its result. -/
def Immediate (P : α → Prop) : Program Reply α → Prop
  | .done a => P a
  | .call _ _ => False
  | .log _ next => Immediate P next

@[simp] theorem immediate_pure {P : α → Prop} (a : α) :
    Immediate P (pure a : Program Reply α) ↔ P a := Iff.rfl

@[simp] theorem immediate_report {P : Unit → Prop} (e : Log.Event) :
    Immediate P (report e : Program Reply Unit) ↔ P () := Iff.rfl

@[simp] theorem immediate_bind {P : β → Prop} (w : Program Reply α) (f : α → Program Reply β) :
    Immediate P (w >>= f) ↔ Immediate (fun a => Immediate P (f a)) w := by
  show Immediate P (w.bind f) ↔ _
  induction w with
  | done a => exact Iff.rfl
  | call c next ih => exact Iff.rfl
  | log e next ih => exact ih

@[simp] theorem immediate_map {P : β → Prop} (f : α → β) (w : Program Reply α) :
    Immediate P (f <$> w) ↔ Immediate (fun a => P (f a)) w := by
  rw [← bind_pure_comp, immediate_bind]
  rfl

theorem Immediate.mono {P P' : α → Prop} {w : Program Reply α} (h : Immediate P w)
    (hP : ∀ a, P a → P' a) : Immediate P' w := by
  induction w with
  | done a => exact hP a h
  | call c next ih => exact h
  | log e next ih => exact ih h

theorem Immediate.runFrom {P : α → Prop} {w : Program Reply α} (h : Immediate P w)
    (answer : σ → (c : Call) → Reply c × σ) (logs : List Log.Event) (s : σ) :
    P (w.runFrom answer logs s).1 ∧ (w.runFrom answer logs s).2.1 = s := by
  induction w generalizing logs with
  | done a => exact ⟨h, rfl⟩
  | call c next ih => exact h.elim
  | log e next ih => exact ih h (e :: logs)

end Program

/-! ### Protocols -/

/-- Which calls may be made in a state, and the state after their answers. -/
structure Protocol (Reply : Call → Type) (σ : Type) where
  Allows : σ → Call → Prop
  after : σ → (c : Call) → Reply c → σ

namespace Program

/-- However its calls are answered, the program makes allowed calls only, and `Q` holds where it
ends. -/
def Follows (P : Protocol Reply σ) (Q : α → σ → Prop) : Program Reply α → σ → Prop
  | .done a, s => Q a s
  | .call c next, s => P.Allows s c ∧ ∀ r, Follows P Q (next r) (P.after s c r)
  | .log _ next, s => Follows P Q next s

/-- The call that comes next, whatever is reported before it. -/
def nextCall? : Program Reply α → Option Call
  | .done _ => none
  | .call c _ => some c
  | .log _ next => nextCall? next

variable {P : Protocol Reply σ} {Q R : α → σ → Prop} {s : σ}

@[simp] theorem follows_pure (a : α) : Follows P Q (pure a) s ↔ Q a s := Iff.rfl

@[simp] theorem follows_report (e : Log.Event) (Q : Unit → σ → Prop) :
    Follows P Q (report e) s ↔ Q () s := Iff.rfl

theorem follows_perform {c : Call} {Q : Reply c → σ → Prop} :
    Follows P Q (perform c) s ↔ P.Allows s c ∧ ∀ r, Q r (P.after s c r) := Iff.rfl

@[simp] theorem follows_bind (w : Program Reply α) (f : α → Program Reply β) (Q : β → σ → Prop) :
    Follows P Q (w >>= f) s ↔ Follows P (fun a s => Follows P Q (f a) s) w s := by
  show Follows P Q (w.bind f) s ↔ _
  induction w generalizing s with
  | done a => exact Iff.rfl
  | call c next ih => exact and_congr_right fun _ => forall_congr' fun r => ih r
  | log e next ih => exact ih

@[simp] theorem follows_map (f : α → β) (w : Program Reply α) (Q : β → σ → Prop) :
    Follows P Q (f <$> w) s ↔ Follows P (fun a s => Q (f a) s) w s := by
  rw [← bind_pure_comp, follows_bind]
  rfl

theorem Follows.mono {w : Program Reply α} (h : Follows P Q w s) (hQ : ∀ a s, Q a s → R a s) :
    Follows P R w s := by
  induction w generalizing s with
  | done a => exact hQ a s h
  | call c next ih => exact ⟨h.1, fun r => ih r (h.2 r)⟩
  | log e next ih => exact ih h

theorem Follows.allows {w : Program Reply α} {c : Call} (h : Follows P Q w s)
    (hc : w.nextCall? = some c) : P.Allows s c := by
  induction w with
  | done a => cases hc
  | call d next ih =>
    obtain rfl := Option.some.inj hc
    exact h.1
  | log e next ih => exact ih h hc

theorem Immediate.follows {w : Program Reply α} {Q : α → Prop} (h : w.Immediate Q)
    (P : Protocol Reply σ) (s : σ) : w.Follows P (fun a _ => Q a) s := by
  induction w with
  | done a => exact h
  | call c next ih => exact h.elim
  | log e next ih => exact ih h

theorem nextCall?_bind {w : Program Reply α} {c : Call} (h : w.nextCall? = some c)
    (f : α → Program Reply β) : (w >>= f).nextCall? = some c := by
  show (w.bind f).nextCall? = some c
  induction w with
  | done a => cases h
  | call d next ih => exact h
  | log e next ih => exact ih h

theorem Follows.ended {w : Program Reply α} (h : Follows P Q w s) (hc : w.nextCall? = none) :
    ∃ a, Q a s := by
  induction w with
  | done a => exact ⟨a, h⟩
  | call d next ih => cases hc
  | log e next ih => exact ih h hc

/-- The program makes these calls, and ends with the result when they are answered like this. -/
def Yields : Program Reply α → List (Σ c, Reply c) → α → Prop
  | .done a, calls, b => calls = [] ∧ a = b
  | .call c next, calls, b => ∃ r later, calls = ⟨c, r⟩ :: later ∧ Yields (next r) later b
  | .log _ next, calls, b => Yields next calls b

theorem Follows.allows_of_yields {w : Program Reply α} {calls : List (Σ c, Reply c)} {a : α}
    (h : Follows P Q w s) (run : w.Yields calls a) : ∀ made ∈ calls, ∃ s, P.Allows s made.1 := by
  induction w generalizing s calls with
  | done b =>
    obtain ⟨rfl, -⟩ := run
    exact fun _ none => nomatch none
  | call c next ih =>
    obtain ⟨r, later, rfl, rest⟩ := run
    rintro made (_ | ⟨_, there⟩)
    · exact ⟨s, h.1⟩
    · exact ih r (h.2 r) rest made there
  | log e next ih => exact ih h run

end Program
end Telemetry
