import Mathlib.Logic.Relation

/-!
# Processes over a durable world

A process is a tree of commands: it issues one, waits for the answer and goes
on, returns, or raises. A machine says what a command may do to the durable
world and which worlds are left behind when the process dies inside it, so
`Runs` has every prefix of every execution among its outcomes.

`Keeps` is the verification condition: an invariant `I` holds in every world
the process can leave behind, whether it finishes, raises or dies, `Q` holds
where it returns and `E` where it raises. `Keeps.sound` is the run lemma and
`Keeps.bind` the rule for sequencing. `Issues` says where a process issues its
commands, and after which answers, `Only` which commands it can issue at all, `Within`
also what it can raise after good answers, and `Obeys` that it issues them where
they are allowed, which keeps what every allowed command keeps. With `I` the worlds
a step relation reaches, a process that keeps `I` refines that relation, and its
executions have every invariant of the steps (`invariant_of_steps`). Nothing here
depends on the program being verified.
-/

namespace RunpodJobrunner

universe u v

/-- A process issuing commands `C` with answers `A`, returning `α` or raising `ε`. -/
inductive Process (C : Type) (A : C → Type) (ε α : Type) : Type where
  /-- return a value -/
  | done : α → Process C A ε α
  /-- raise an exception -/
  | raise : ε → Process C A ε α
  /-- issue a command and continue with its answer -/
  | call : (c : C) → (A c → Process C A ε α) → Process C A ε α

namespace Process

variable {C : Type} {A : C → Type} {ε α β γ : Type}

/-- Sequencing; an exception skips the continuation. -/
protected def bind : Process C A ε α → (α → Process C A ε β) → Process C A ε β
  | done a, f => f a
  | raise e, _ => raise e
  | call c k, f => call c fun a => (k a).bind f

instance : Monad (Process C A ε) where
  pure := done
  bind := Process.bind

/-- Issue one command and return its answer. -/
def perform (c : C) : Process C A ε (A c) := call c done

@[simp] theorem pure_eq (a : α) : (pure a : Process C A ε α) = done a := rfl

@[simp] theorem done_bind (a : α) (f : α → Process C A ε β) : (done a >>= f) = f a := rfl

@[simp] theorem raise_bind (e : ε) (f : α → Process C A ε β) : (raise e >>= f) = raise e := rfl

@[simp] theorem call_bind (c : C) (k : A c → Process C A ε α) (f : α → Process C A ε β) :
    (call c k >>= f) = call c fun a => k a >>= f := rfl

@[simp] theorem perform_bind (c : C) (f : A c → Process C A ε β) :
    (perform c >>= f) = call c f := rfl

@[simp] theorem bind_done (p : Process C A ε α) : (p >>= .done) = p := by
  induction p with
  | done a => rfl
  | raise e => rfl
  | call c k ih =>
    simp only [call_bind]
    exact congrArg (call c) (funext ih)

theorem bind_assoc (p : Process C A ε α) (f : α → Process C A ε β) (g : β → Process C A ε γ) :
    p >>= f >>= g = p >>= fun a => f a >>= g := by
  induction p with
  | done a => rfl
  | raise e => rfl
  | call c k ih =>
    simp only [call_bind]
    exact congrArg (call c) (funext ih)

/-- Run a process and hand on what it returned or raised. -/
def attempt {δ : Type} : Process C A ε α → Process C A δ (Except ε α)
  | done a => done (.ok a)
  | raise e => done (.error e)
  | call c k => call c fun a => (k a).attempt

end Process

/-- How an execution ended. `died` covers a process death at any point. -/
inductive Outcome (ε α : Type) : Type where
  | returned : α → Outcome ε α
  | raised : ε → Outcome ε α
  | died : Outcome ε α
  deriving DecidableEq

/-- The execution raised that exception. -/
def Outcome.raises {ε α : Type} [DecidableEq ε] (o : Outcome ε α) (e : ε) : Bool :=
  match o with
  | .raised f => f = e
  | _ => false

theorem Outcome.eq_of_raises {ε α : Type} [DecidableEq ε] {o : Outcome ε α} {e : ε}
    (h : o.raises e = true) : o = .raised e := by
  cases o with
  | raised f => rw [of_decide_eq_true h]
  | returned a => cases h
  | died => cases h

/-- What commands do to a durable world of type `W`. -/
structure Machine (W : Type u) (C : Type) (A : C → Type) where
  /-- the command completes with that answer, leaving that world -/
  exec : W → (c : C) → A c → W → Prop
  /-- the process dies inside the command, leaving that world -/
  die : W → C → W → Prop

section Run

variable {W : Type u} {C : Type} {A : C → Type} {ε α β : Type} (M : Machine W C A)

/-- Executions of a process from a world, each with its outcome and the world
it leaves. -/
inductive Runs : Process C A ε α → W → Outcome ε α → W → Prop where
  | done (a : α) (w : W) : Runs (.done a) w (.returned a) w
  | raise (e : ε) (w : W) : Runs (.raise e) w (.raised e) w
  /-- death between two commands -/
  | halt (p : Process C A ε α) (w : W) : Runs p w .died w
  /-- death inside a command -/
  | die {c : C} {k : A c → Process C A ε α} {w w' : W} :
      M.die w c w' → Runs (.call c k) w .died w'
  | step {c : C} {k : A c → Process C A ε α} {w w' w'' : W} {a : A c} {o : Outcome ε α} :
      M.exec w c a w' → Runs (k a) w' o w'' → Runs (.call c k) w o w''

/-- `I` holds in every world the process leaves behind from `w`, `Q` of the value
it returns and `E` of the exception it raises. -/
def Keeps (I : W → Prop) (Q : α → W → Prop) (E : ε → W → Prop) : Process C A ε α → W → Prop
  | .done a, w => Q a w
  | .raise e, w => E e w
  | .call c k, w =>
    (∀ w', M.die w c w' → I w') ∧ ∀ a w', M.exec w c a w' → I w' ∧ Keeps I Q E (k a) w'

variable {M} {I J : W → Prop} {Q R : α → W → Prop} {E F : ε → W → Prop}

@[simp] theorem keeps_done {a : α} {w : W} :
    Keeps M I Q E (.done a : Process C A ε α) w ↔ Q a w := Iff.rfl

@[simp] theorem keeps_raise {e : ε} {w : W} :
    Keeps M I Q E (.raise e : Process C A ε α) w ↔ E e w := Iff.rfl

theorem keeps_call {c : C} {k : A c → Process C A ε α} {w : W} :
    Keeps M I Q E (.call c k) w ↔
      (∀ w', M.die w c w' → I w') ∧ ∀ a w', M.exec w c a w' → I w' ∧ Keeps M I Q E (k a) w' :=
  Iff.rfl

/-- Weaken the invariant and the postconditions. -/
theorem Keeps.mono {p : Process C A ε α} {w : W} (hIJ : ∀ w, I w → J w)
    (hQR : ∀ a w, Q a w → R a w) (hEF : ∀ e w, E e w → F e w) (h : Keeps M I Q E p w) :
    Keeps M J R F p w := by
  induction p generalizing w with
  | done a => exact hQR _ _ h
  | raise e => exact hEF _ _ h
  | call c k ih =>
    obtain ⟨hdie, hexec⟩ := h
    refine ⟨fun w' hw => hIJ _ (hdie w' hw), fun a w' hw => ?_⟩
    obtain ⟨hI, hk⟩ := hexec a w' hw
    exact ⟨hIJ _ hI, ih a hk⟩

/-- Nothing is asked of a process that may do anything. -/
theorem keeps_true (p : Process C A ε α) (w : W) :
    Keeps M (fun _ => True) (fun _ _ => True) (fun _ _ => True) p w := by
  induction p generalizing w with
  | done a => trivial
  | raise e => trivial
  | call c k ih => exact ⟨fun _ _ => trivial, fun a w' _ => ⟨trivial, ih a w'⟩⟩

/-- Two conditions hold together. -/
theorem Keeps.and {p : Process C A ε α} {w : W} (h : Keeps M I Q E p w) (h' : Keeps M J R F p w) :
    Keeps M (fun w => I w ∧ J w) (fun a w => Q a w ∧ R a w) (fun e w => E e w ∧ F e w) p w := by
  induction p generalizing w with
  | done a => exact ⟨h, h'⟩
  | raise e => exact ⟨h, h'⟩
  | call c k ih =>
    refine ⟨fun w' hd => ⟨h.1 w' hd, h'.1 w' hd⟩, fun a w' he => ?_⟩
    obtain ⟨hI, hk⟩ := h.2 a w' he
    obtain ⟨hJ, hk'⟩ := h'.2 a w' he
    exact ⟨⟨hI, hJ⟩, ih a hk hk'⟩

/-- What a machine lets a process keep, one that does at most as much does too. -/
theorem Keeps.restrict {N : Machine W C A} (hexec : ∀ w c a w', N.exec w c a w' → M.exec w c a w')
    (hdie : ∀ w c w', N.die w c w' → M.die w c w') {p : Process C A ε α} {w : W}
    (h : Keeps M I Q E p w) : Keeps N I Q E p w := by
  induction p generalizing w with
  | done a => exact h
  | raise e => exact h
  | call c k ih =>
    refine ⟨fun w' hd => h.1 w' (hdie w c w' hd), fun a w' he => ?_⟩
    obtain ⟨hI, hk⟩ := h.2 a w' (hexec w c a w' he)
    exact ⟨hI, ih a hk⟩

/-- Sequencing: what the first process returns must let the second keep `I`. -/
theorem Keeps.bind {p : Process C A ε α} {f : α → Process C A ε β} {w : W}
    {S : β → W → Prop} (h : Keeps M I Q E p w)
    (hf : ∀ a w', Q a w' → Keeps M I S E (f a) w') : Keeps M I S E (p >>= f) w := by
  induction p generalizing w with
  | done a => exact hf _ _ h
  | raise e => exact h
  | call c k ih =>
    obtain ⟨hdie, hexec⟩ := h
    exact ⟨hdie, fun a w' hw => ⟨(hexec a w' hw).1, ih a (hexec a w' hw).2⟩⟩

/-- What is attempted keeps what the process keeps, and what it raised is a value. -/
theorem Keeps.attempt {δ : Type} {F : δ → W → Prop} {p : Process C A ε α} {w : W}
    (h : Keeps M I Q E p w) :
    Keeps M I (fun r w => (∀ a, r = .ok a → Q a w) ∧ ∀ e, r = .error e → E e w) F
      (p.attempt : Process C A δ (Except ε α)) w := by
  induction p generalizing w with
  | done a => exact ⟨fun _ hb => Except.ok.inj hb ▸ h, nofun⟩
  | raise e => exact ⟨nofun, fun _ hb => Except.error.inj hb ▸ h⟩
  | call c k ih => exact ⟨h.1, fun a w' hw => ⟨(h.2 a w' hw).1, ih a (h.2 a w' hw).2⟩⟩

/-- **Soundness.** From a world where `I` holds, every execution of a process
that keeps `I` leaves a world where `I` holds, with `Q` where it returned and `E`
where it raised. -/
theorem Keeps.sound {p : Process C A ε α} {w w' : W} {o : Outcome ε α}
    (hr : Runs M p w o w') (h : Keeps M I Q E p w) (hI : I w) :
    I w' ∧ (∀ a, o = .returned a → Q a w') ∧ ∀ e, o = .raised e → E e w' := by
  induction hr with
  | done a w =>
    refine ⟨hI, fun b hb => ?_, fun _ hb => by cases hb⟩
    obtain rfl : a = b := by injection hb
    exact h
  | raise e w =>
    refine ⟨hI, fun _ hb => (by cases hb), fun f hb => ?_⟩
    obtain rfl : e = f := by injection hb
    exact h
  | halt p w => exact ⟨hI, fun _ hb => (by cases hb), fun _ hb => by cases hb⟩
  | die hd => exact ⟨h.1 _ hd, fun _ hb => (by cases hb), fun _ hb => by cases hb⟩
  | step he _ ih => exact ih (h.2 _ _ he).2 (h.2 _ _ he).1

/-! ## What a process asks for -/

variable (M) in
/-- In every execution of the process from `w`, each command is issued where `P`
allows it, given the answers so far, newest first. -/
def Issues (P : List (Σ c, A c) → C → W → Prop) :
    List (Σ c, A c) → Process C A ε α → W → Prop
  | _, .done _, _ => True
  | _, .raise _, _ => True
  | answers, .call c k, w =>
    P answers c w ∧ ∀ a w', M.exec w c a w' → Issues P (⟨c, a⟩ :: answers) (k a) w'

/-- Every command the process can issue satisfies `P`. -/
def Process.Only (P : C → Prop) : Process C A ε α → Prop
  | .done _ => True
  | .raise _ => True
  | .call c k => P c ∧ ∀ a, (k a).Only P

theorem Process.Only.bind {P : C → Prop} {p : Process C A ε α} {f : α → Process C A ε β}
    (hp : p.Only P) (hf : ∀ a, (f a).Only P) : (p >>= f).Only P := by
  induction p with
  | done a => exact hf a
  | raise e => trivial
  | call c k ih => exact ⟨hp.1, fun a => ih a (hp.2 a)⟩

theorem Process.Only.mono {P P' : C → Prop} {p : Process C A ε α} (hP : ∀ c, P c → P' c)
    (hp : p.Only P) : p.Only P' := by
  induction p with
  | done a => trivial
  | raise e => trivial
  | call c k ih => exact ⟨hP c hp.1, fun a => ih a (hp.2 a)⟩

/-- A process keeps what each of its commands keeps. -/
theorem Process.Only.keeps {P : C → Prop} {p : Process C A ε α} (hp : p.Only P)
    (hexec : ∀ w c a w', P c → I w → M.exec w c a w' → I w')
    (hdie : ∀ w c w', P c → I w → M.die w c w' → I w') {w : W} (hw : I w) :
    Keeps M I (fun _ => I) (fun _ => I) p w := by
  induction p generalizing w with
  | done a => exact hw
  | raise e => exact hw
  | call c k ih =>
    refine ⟨fun w' hd => hdie w c w' hp.1 hw hd, fun a w' he => ?_⟩
    have hw' := hexec w c a w' hp.1 hw he
    exact ⟨hw', ih a (hp.2 a) hw'⟩

/-- Every command the process can issue satisfies `P`, and as long as the answers are good
it raises only what `E` allows. -/
def Process.Within (P : C → Prop) (good : (c : C) → A c → Prop) (E : ε → Prop) :
    Process C A ε α → Prop
  | .done _ => True
  | .raise e => E e
  | .call c k => P c ∧ ∀ a, good c a → (k a).Within P good E

theorem Process.Within.bind {P : C → Prop} {good : (c : C) → A c → Prop} {E : ε → Prop}
    {p : Process C A ε α} {f : α → Process C A ε β} (hp : p.Within P good E)
    (hf : ∀ a, (f a).Within P good E) : (p >>= f).Within P good E := by
  induction p with
  | done a => exact hf a
  | raise e => exact hp
  | call c k ih => exact ⟨hp.1, fun a ha => ih a (hp.2 a ha)⟩

/-- Where the machine answers well, what every command keeps is kept and nothing else is
raised. -/
theorem Process.Within.keeps {P : C → Prop} {good : (c : C) → A c → Prop} {E : ε → Prop}
    {p : Process C A ε α} (hp : p.Within P good E)
    (hexec : ∀ w c a w', P c → I w → M.exec w c a w' → good c a ∧ I w')
    (hdie : ∀ w c w', P c → I w → M.die w c w' → I w') {w : W} (hw : I w) :
    Keeps M I (fun _ => I) (fun e _ => E e) p w := by
  induction p generalizing w with
  | done a => exact hw
  | raise e => exact hp
  | call c k ih =>
    refine ⟨fun w' hd => hdie w c w' hp.1 hw hd, fun a w' he => ?_⟩
    obtain ⟨ha, hw'⟩ := hexec w c a w' hp.1 hw he
    exact ⟨hw', ih a (hp.2 a ha) hw'⟩

/-- An execution of a sequence ends in its first part, or goes on with the second
where the first returned. -/
theorem runs_bind {β : Type} {p : Process C A ε α} {f : α → Process C A ε β} {w w' : W}
    {o : Outcome ε β} (h : Runs M (p >>= f) w o w') :
    (∃ o', (∀ a, o' ≠ .returned a) ∧ Runs M p w o' w' ∧ ∀ b, o ≠ .returned b) ∨
      ∃ a v, Runs M p w (.returned a) v ∧ Runs M (f a) v o w' := by
  induction p generalizing w with
  | done a => exact .inr ⟨a, w, .done a w, h⟩
  | raise e =>
    cases h with
    | raise => exact .inl ⟨.raised e, nofun, .raise e _, nofun⟩
    | halt => exact .inl ⟨.died, nofun, .halt _ _, nofun⟩
  | call c k ih =>
    cases h with
    | halt => exact .inl ⟨.died, nofun, .halt _ _, nofun⟩
    | die hd => exact .inl ⟨.died, nofun, .die hd, nofun⟩
    | step he hk =>
      rcases ih _ hk with ⟨o', ho', hp, ho⟩ | ⟨a, v, hp, hf⟩
      · exact .inl ⟨o', ho', .step he hp, ho⟩
      · exact .inr ⟨a, v, .step he hp, hf⟩

/-- The second part of a sequence goes on where the first returned. -/
theorem Runs.bind {p : Process C A ε α} {f : α → Process C A ε β} {w v w' : W} {a : α}
    {o : Outcome ε β} (h : Runs M p w (.returned a) v) (hf : Runs M (f a) v o w') :
    Runs M (p >>= f) w o w' := by
  generalize ho : Outcome.returned a = o' at h
  induction h with
  | done b w =>
    cases ho
    exact hf
  | raise e w => cases ho
  | halt p w => cases ho
  | die hd => cases ho
  | step he _ ih => exact .step he (ih hf ho)

/-- A sequence raises what its first part raises. -/
theorem Runs.bind_raised {p : Process C A ε α} {f : α → Process C A ε β} {w w' : W} {e : ε}
    (h : Runs M p w (.raised e) w') : Runs M (p >>= f) w (.raised e) w' := by
  generalize ho : Outcome.raised e = o' at h
  induction h with
  | done b w => cases ho
  | raise e' w =>
    cases ho
    exact .raise e w
  | halt p w => cases ho
  | die hd => cases ho
  | step he _ ih => exact .step he (ih ho)

/-- Executions carry over to a machine that does at least as much. -/
theorem Runs.mono {N : Machine W C A} (hexec : ∀ w c a w', M.exec w c a w' → N.exec w c a w')
    (hdie : ∀ w c w', M.die w c w' → N.die w c w') {p : Process C A ε α} {w w' : W}
    {o : Outcome ε α} (h : Runs M p w o w') : Runs N p w o w' := by
  induction h with
  | done a w => exact .done a w
  | raise e w => exact .raise e w
  | halt p w => exact .halt p w
  | die hd => exact .die (hdie _ _ _ hd)
  | step he _ ih => exact .step (hexec _ _ _ _ he) ih

/-- What is issued under a machine is issued under one that does at most as much. -/
theorem Issues.mono {N : Machine W C A} (hexec : ∀ w c a w', N.exec w c a w' → M.exec w c a w')
    {P : List (Σ c, A c) → C → W → Prop} {answers : List (Σ c, A c)} {p : Process C A ε α} {w : W}
    (h : Issues M P answers p w) : Issues N P answers p w := by
  induction p generalizing answers w with
  | done a => trivial
  | raise e => trivial
  | call c k ih => exact ⟨h.1, fun a w' he => ih a (h.2 a w' (hexec w c a w' he))⟩

/-- What allows more commands allows the same processes. -/
theorem Issues.weaken {P P' : List (Σ c, A c) → C → W → Prop}
    (hP : ∀ answers c w, P answers c w → P' answers c w) {answers : List (Σ c, A c)}
    {p : Process C A ε α} {w : W} (h : Issues M P answers p w) : Issues M P' answers p w := by
  induction p generalizing answers w with
  | done a => trivial
  | raise e => trivial
  | call c k ih => exact ⟨hP _ _ _ h.1, fun a w' he => ih a (h.2 a w' he)⟩

/-! ## What a process relies on -/

variable (M) in
/-- As long as `I` is kept, each command is issued where `P` allows it; `Q` holds of what the
process returns and `E` of what it raises. -/
def Obeys (I : W → Prop) (P : C → W → Prop) (Q : α → W → Prop) (E : ε → W → Prop) :
    Process C A ε α → W → Prop
  | .done a, w => Q a w
  | .raise e, w => E e w
  | .call c k, w => P c w ∧ ∀ a w', M.exec w c a w' → I w' → Obeys I P Q E (k a) w'

section

variable {P : C → W → Prop}

@[simp] theorem obeys_done {a : α} {w : W} :
    Obeys M I P Q E (.done a : Process C A ε α) w ↔ Q a w := Iff.rfl

@[simp] theorem obeys_raise {e : ε} {w : W} :
    Obeys M I P Q E (.raise e : Process C A ε α) w ↔ E e w := Iff.rfl

theorem obeys_call {c : C} {k : A c → Process C A ε α} {w : W} :
    Obeys M I P Q E (.call c k) w ↔
      P c w ∧ ∀ a w', M.exec w c a w' → I w' → Obeys M I P Q E (k a) w' := Iff.rfl

theorem Obeys.mono {p : Process C A ε α} {w : W} (hQR : ∀ a w, Q a w → R a w)
    (hEF : ∀ e w, E e w → F e w) (h : Obeys M I P Q E p w) : Obeys M I P R F p w := by
  induction p generalizing w with
  | done a => exact hQR _ _ h
  | raise e => exact hEF _ _ h
  | call c k ih => exact ⟨h.1, fun a w' he hI => ih a (h.2 a w' he hI)⟩

/-- What is relied on holds where the process ends. -/
theorem Obeys.relied {p : Process C A ε α} {w : W} (hI : I w) (h : Obeys M I P Q E p w) :
    Obeys M I P (fun a w => I w ∧ Q a w) (fun e w => I w ∧ E e w) p w := by
  induction p generalizing w with
  | done a => exact ⟨hI, h⟩
  | raise e => exact ⟨hI, h⟩
  | call c k ih => exact ⟨h.1, fun a w' he hI' => ih a hI' (h.2 a w' he hI')⟩

theorem Obeys.bind {p : Process C A ε α} {f : α → Process C A ε β} {w : W} {S : β → W → Prop}
    (h : Obeys M I P Q E p w) (hf : ∀ a w', Q a w' → Obeys M I P S E (f a) w') :
    Obeys M I P S E (p >>= f) w := by
  induction p generalizing w with
  | done a => exact hf _ _ h
  | raise e => exact h
  | call c k ih => exact ⟨h.1, fun a w' he hI => ih a (h.2 a w' he hI)⟩

theorem Obeys.attempt {δ : Type} {F : δ → W → Prop} {p : Process C A ε α} {w : W}
    (h : Obeys M I P Q E p w) :
    Obeys M I P (fun r w => (∀ a, r = .ok a → Q a w) ∧ ∀ e, r = .error e → E e w) F
      (p.attempt : Process C A δ (Except ε α)) w := by
  induction p generalizing w with
  | done a => exact ⟨fun _ hb => Except.ok.inj hb ▸ h, nofun⟩
  | raise e => exact ⟨nofun, fun _ hb => Except.error.inj hb ▸ h⟩
  | call c k ih => exact ⟨h.1, fun a w' he hI => ih a (h.2 a w' he hI)⟩

/-- **What is relied on is kept** when every command keeps it where it is allowed; a death
in one keeps what is said of all worlds. -/
theorem Obeys.keeps (hJ : ∀ w, I w → J w) (hexec : ∀ w c a w', P c w → I w → M.exec w c a w' → I w')
    (hdie : ∀ w c w', P c w → I w → M.die w c w' → J w') {p : Process C A ε α} {w : W} (hI : I w)
    (h : Obeys M I P Q E p w) : Keeps M J Q E p w := by
  induction p generalizing w with
  | done a => exact h
  | raise e => exact h
  | call c k ih =>
    refine ⟨fun w' hd => hdie w c w' h.1 hI hd, fun a w' he => ?_⟩
    have hI' := hexec w c a w' h.1 hI he
    exact ⟨hJ w' hI', ih a hI' (h.2 a w' he hI')⟩

/-- Every command is issued where it is allowed. -/
theorem Obeys.issues (hexec : ∀ w c a w', P c w → I w → M.exec w c a w' → I w')
    {answers : List (Σ c, A c)} {p : Process C A ε α} {w : W} (hI : I w)
    (h : Obeys M I P Q E p w) : Issues M (fun _ c w => P c w) answers p w := by
  induction p generalizing answers w with
  | done a => trivial
  | raise e => trivial
  | call c k ih =>
    refine ⟨h.1, fun a w' he => ?_⟩
    have hI' := hexec w c a w' h.1 hI he
    exact ih a hI' (h.2 a w' he hI')

end

end Run

/-! ## Interpretation -/

section Interpret

variable {W : Type u} {C : Type} {A : C → Type} {ε α : Type} {M : Machine W C A}

/-- The end of one interpretation, and whether every answer in it was allowed. -/
structure Played (W : Type u) (ε α : Type) : Type u where
  outcome : Outcome ε α
  world : W
  allowed : Bool

/-- Interpret a process with given answers, each with the world after it and
whether it is allowed. -/
def Process.interpret (respond : W → (c : C) → A c × W × Bool) :
    Process C A ε α → W → Played W ε α
  | .done a, w => ⟨.returned a, w, true⟩
  | .raise e, w => ⟨.raised e, w, true⟩
  | .call c k, w =>
    let r := (k (respond w c).1).interpret respond (respond w c).2.1
    { r with allowed := (respond w c).2.2 && r.allowed }

/-- An interpretation whose answers are allowed is an execution. -/
theorem Process.runs_interpret {respond : W → (c : C) → A c × W × Bool}
    (hrespond : ∀ w c, (respond w c).2.2 = true → M.exec w c (respond w c).1 (respond w c).2.1)
    {p : Process C A ε α} {w : W} (h : (p.interpret respond w).allowed = true) :
    Runs M p w (p.interpret respond w).outcome (p.interpret respond w).world := by
  induction p generalizing w with
  | done a => exact .done a w
  | raise e => exact .raise e w
  | call c k ih =>
    obtain ⟨hc, hk⟩ := Bool.and_eq_true_iff.mp h
    exact .step (hrespond w c hc) (ih _ hk)

/-- An interpretation of a sequence returns when both of its parts do. -/
theorem Process.interpret_bind {respond : W → (c : C) → A c × W × Bool} {β : Type}
    {p : Process C A ε α} {f : α → Process C A ε β} {w : W} {b : β} :
    ((p >>= f).interpret respond w).outcome = .returned b ↔
      ∃ a, (p.interpret respond w).outcome = .returned a ∧
        ((f a).interpret respond (p.interpret respond w).world).outcome = .returned b := by
  induction p generalizing w with
  | done a => simp [Process.interpret]
  | raise e => simp [Process.interpret]
  | call c k ih => exact ih _

/-- Interpret a process until it dies: `dies` says in which commands, and what
world that leaves. -/
def Process.interpretUntil (dies : W → C → Option W) (respond : W → (c : C) → A c × W × Bool) :
    Process C A ε α → W → Played W ε α
  | .done a, w => ⟨.returned a, w, true⟩
  | .raise e, w => ⟨.raised e, w, true⟩
  | .call c k, w =>
    match dies w c with
    | some w' => ⟨.died, w', true⟩
    | none =>
      let r := (k (respond w c).1).interpretUntil dies respond (respond w c).2.1
      { r with allowed := (respond w c).2.2 && r.allowed }

theorem Process.runs_interpretUntil {dies : W → C → Option W}
    {respond : W → (c : C) → A c × W × Bool} (hdies : ∀ w c w', dies w c = some w' → M.die w c w')
    (hrespond : ∀ w c, (respond w c).2.2 = true → M.exec w c (respond w c).1 (respond w c).2.1)
    {p : Process C A ε α} {w : W} (h : (p.interpretUntil dies respond w).allowed = true) :
    Runs M p w (p.interpretUntil dies respond w).outcome
      (p.interpretUntil dies respond w).world := by
  induction p generalizing w with
  | done a => exact .done a w
  | raise e => exact .raise e w
  | call c k ih =>
    rw [Process.interpretUntil] at h ⊢
    cases hd : dies w c with
    | some w' => exact .die (hdies w c w' hd)
    | none =>
      rw [hd] at h
      obtain ⟨hc, hk⟩ := Bool.and_eq_true_iff.mp h
      exact .step (hrespond w c hc) (ih _ hk)

end Interpret

/-- A relation preserves `I`, so all its chains do. -/
theorem invariant_of_steps {W : Type u} {R : W → W → Prop} {I : W → Prop}
    (hstep : ∀ a b, R a b → I a → I b) {w w' : W} (h : Relation.ReflTransGen R w w') (hI : I w) :
    I w' := by
  induction h with
  | refl => exact hI
  | tail _ hs ih => exact hstep _ _ hs ih

end RunpodJobrunner
