import Mathlib.Tactic.Common
import RunpodJobrunner.Process

/-!
# Sections under an exclusive lock

Any number of processes share a durable world and run their sections under one
exclusive lock, which a process that dies gives up. The sections interleave with
outside steps that do not take the lock. `lock_serial` is the serialisation
result: every world of an interleaving is one that whole sections and outside
steps leave behind, one after the other, where a section that is still running
counts as one that died. An invariant of the sections is then an invariant of
every interleaving (`lock_invariant`). Nothing here depends on the program being
verified.
-/

namespace RunpodJobrunner

open Relation

universe u

variable {W : Type u} {C : Type} {A : C → Type} {ε α : Type}

/-- The world, and what is left of the section that holds the lock. -/
structure Locked (W : Type u) (C : Type) (A : C → Type) (ε α : Type) : Type u where
  world : W
  holder : Option (Process C A ε α)

/-- Outside steps may come before each command of a section. -/
def Machine.among (M : Machine W C A) (Outside : W → W → Prop) : Machine W C A where
  exec w c a w' := ∃ v, ReflTransGen Outside w v ∧ M.exec v c a w'
  die w c w' := ∃ v, ReflTransGen Outside w v ∧ M.die v c w'

section

variable (M : Machine W C A) (Enters : W → Process C A ε α → Prop) (Outside : W → W → Prop)

/-- One step of the processes: at most one section is under way. -/
inductive LockStep : Locked W C A ε α → Locked W C A ε α → Prop where
  /-- a process takes the free lock -/
  | enter {w : W} {p : Process C A ε α} : Enters w p → LockStep ⟨w, none⟩ ⟨w, some p⟩
  | command {w w' : W} {c : C} {a : A c} {k : A c → Process C A ε α} :
      M.exec w c a w' → LockStep ⟨w, some (.call c k)⟩ ⟨w', some (k a)⟩
  /-- the process dies inside a command -/
  | die {w w' : W} {c : C} {k : A c → Process C A ε α} :
      M.die w c w' → LockStep ⟨w, some (.call c k)⟩ ⟨w', none⟩
  /-- the process returns, raises or dies between two commands -/
  | leave {w : W} {p : Process C A ε α} : LockStep ⟨w, some p⟩ ⟨w, none⟩
  | outside {w w' : W} {h : Option (Process C A ε α)} : Outside w w' → LockStep ⟨w, h⟩ ⟨w', h⟩

/-- A whole section, or an outside step. -/
inductive Serial : W → W → Prop where
  | ran {w w' : W} {p : Process C A ε α} {o : Outcome ε α} :
      Enters w p → Runs (M.among Outside) p w o w' → Serial w w'
  | outside {w w' : W} : Outside w w' → Serial w w'

end

variable {M : Machine W C A} {Enters : W → Process C A ε α → Prop} {Outside : W → W → Prop}

/-- Outside steps before a section that goes on are part of it. -/
theorem runs_among_of_outside {p : Process C A ε α} {v w w' : W} {o : Outcome ε α}
    (hout : ReflTransGen Outside v w) (h : Runs (M.among Outside) p w o w') :
    ∃ w'', Runs (M.among Outside) p v o w'' ∧ ReflTransGen Outside w'' w' := by
  cases h with
  | done a => exact ⟨v, .done a v, hout⟩
  | raise e => exact ⟨v, .raise e v, hout⟩
  | halt => exact ⟨v, .halt p v, hout⟩
  | die hd =>
    obtain ⟨x, hx, hd⟩ := hd
    exact ⟨w', .die ⟨x, hout.trans hx, hd⟩, .refl⟩
  | step he hk =>
    obtain ⟨x, hx, he⟩ := he
    exact ⟨w', .step ⟨x, hout.trans hx, he⟩ hk, .refl⟩

theorem serial_of_outside {v w : W} (h : ReflTransGen Outside v w) :
    ReflTransGen (Serial M Enters Outside) v w :=
  h.lift id fun _ _ hs => .outside hs

/-- What the rest of a section does from here, the section does from the world it
was entered in, up to outside steps after it. -/
def Progressed (M : Machine W C A) (Outside : W → W → Prop) (p : Process C A ε α) (v : W)
    (q : Process C A ε α) (w : W) : Prop :=
  ∀ o w', Runs (M.among Outside) q w o w' →
    ∃ w'', Runs (M.among Outside) p v o w'' ∧ ReflTransGen Outside w'' w'

/-- **Serialisation.** Whatever has happened is whole sections and outside steps,
and the section under way has progressed from a world they reach. -/
theorem lock_serial {w : W} {s : Locked W C A ε α}
    (h : ReflTransGen (LockStep M Enters Outside) ⟨w, none⟩ s) :
    match s.holder with
    | none => ReflTransGen (Serial M Enters Outside) w s.world
    | some q => ∃ v p, ReflTransGen (Serial M Enters Outside) w v ∧ Enters v p ∧
        Progressed M Outside p v q s.world := by
  induction h with
  | refl => exact .refl
  | tail _ hs ih =>
    cases hs with
    | enter hp => exact ⟨_, _, ih, hp, fun o w' hr => ⟨w', hr, .refl⟩⟩
    | command he =>
      obtain ⟨v, p, hv, hp, hq⟩ := ih
      exact ⟨v, p, hv, hp, fun o w' hr => hq o w' (.step ⟨_, .refl, he⟩ hr)⟩
    | die hd =>
      obtain ⟨v, p, hv, hp, hq⟩ := ih
      obtain ⟨w'', hr, hout⟩ := hq _ _ (.die ⟨_, .refl, hd⟩)
      exact (hv.tail (.ran hp hr)).trans (serial_of_outside hout)
    | leave =>
      obtain ⟨v, p, hv, hp, hq⟩ := ih
      obtain ⟨w'', hr, hout⟩ := hq _ _ (.halt _ _)
      exact (hv.tail (.ran hp hr)).trans (serial_of_outside hout)
    | @outside w₁ w₂ held hout =>
      cases held with
      | none => exact ih.tail (.outside hout)
      | some q =>
        obtain ⟨v, p, hv, hp, hq⟩ := ih
        refine ⟨v, p, hv, hp, fun o w' hr => ?_⟩
        obtain ⟨x, hx, hxout⟩ := runs_among_of_outside (.single hout) hr
        obtain ⟨y, hy, hyout⟩ := hq o x hx
        exact ⟨y, hy, hyout.trans hxout⟩

/-- A section that runs alone is an interleaving. -/
theorem lock_run {p : Process C A ε α} {w w' : W} {o : Outcome ε α} (hp : Enters w p)
    (h : Runs M p w o w') : ReflTransGen (LockStep M Enters Outside) ⟨w, none⟩ ⟨w', none⟩ := by
  refine .head (.enter hp) ?_
  clear hp
  induction h with
  | done a w => exact .single .leave
  | raise e w => exact .single .leave
  | halt p w => exact .single .leave
  | die hd => exact .single (.die hd)
  | step he _ ih => exact .head (.command he) ih

/-- Every world of an interleaving is left behind by sections one after the other. -/
theorem lock_world {w : W} {s : Locked W C A ε α}
    (h : ReflTransGen (LockStep M Enters Outside) ⟨w, none⟩ s) :
    ReflTransGen (Serial M Enters Outside) w s.world := by
  have hserial := lock_serial h
  obtain ⟨v, holder⟩ := s
  cases holder with
  | none => exact hserial
  | some q =>
    obtain ⟨x, p, hx, hp, hq⟩ := hserial
    obtain ⟨y, hr, hout⟩ := hq _ _ (.halt _ _)
    exact (hx.tail (.ran hp hr)).trans (serial_of_outside hout)

/-- **Invariants.** What whole sections and outside steps preserve holds in every
world of an interleaving. -/
theorem lock_invariant {I : W → Prop}
    (hran : ∀ v p o v', I v → Enters v p → Runs (M.among Outside) p v o v' → I v')
    (hout : ∀ v v', I v → Outside v v' → I v') {w : W} {s : Locked W C A ε α} (hI : I w)
    (h : ReflTransGen (LockStep M Enters Outside) ⟨w, none⟩ s) : I s.world := by
  refine invariant_of_steps (fun v v' hs hv => ?_) (lock_world h) hI
  cases hs with
  | ran hp hr => exact hran _ _ _ _ hv hp hr
  | outside ho => exact hout _ _ hv ho

/-- The section under way issues its commands as a section does from the world it
was entered in. -/
theorem lock_issues {P : List (Σ c, A c) → C → W → Prop} {w : W}
    (henter : ∀ v p, ReflTransGen (LockStep M Enters fun _ _ => False) ⟨w, none⟩ ⟨v, none⟩ →
      Enters v p → Issues M P [] p v)
    {s : Locked W C A ε α} (h : ReflTransGen (LockStep M Enters fun _ _ => False) ⟨w, none⟩ s) :
    ∀ q, s.holder = some q → ∃ answers, Issues M P answers q s.world := by
  induction h with
  | refl => nofun
  | tail hs hstep ih =>
    cases hstep with
    | enter hp =>
      rintro q ⟨⟩
      exact ⟨[], henter _ _ hs hp⟩
    | command he =>
      rintro q ⟨⟩
      obtain ⟨answers, -, hk⟩ := ih _ rfl
      exact ⟨_, hk _ _ he⟩
    | die hd => nofun
    | leave => nofun
    | outside ho => exact ho.elim

/-- **Transitions.** When a section issues only commands whose effect is in `R`,
every step of an interleaving is. -/
theorem lock_transition {R : W → W → Prop} (hrefl : ∀ v, R v v) {w : W}
    (henter : ∀ v p, ReflTransGen (LockStep M Enters fun _ _ => False) ⟨w, none⟩ ⟨v, none⟩ →
      Enters v p →
      Issues M (fun _ c v => (∀ a v', M.exec v c a v' → R v v') ∧ ∀ v', M.die v c v' → R v v') [] p v)
    {s s' : Locked W C A ε α}
    (h : ReflTransGen (LockStep M Enters fun _ _ => False) ⟨w, none⟩ s)
    (hstep : LockStep M Enters (fun _ _ => False) s s') : R s.world s'.world := by
  have hissues := lock_issues henter h
  cases hstep with
  | enter hp => exact hrefl _
  | command he =>
    obtain ⟨_, ⟨hexec, -⟩, -⟩ := hissues _ rfl
    exact hexec _ _ he
  | die hd =>
    obtain ⟨_, ⟨-, hdie⟩, -⟩ := hissues _ rfl
    exact hdie _ hd
  | leave => exact hrefl _
  | outside ho => exact ho.elim

/-- With nothing outside, a section runs alone. -/
theorem runs_alone {p : Process C A ε α} {w w' : W} {o : Outcome ε α}
    (h : Runs (M.among fun _ _ => False) p w o w') : Runs M p w o w' := by
  have halone : ∀ v v' : W, ReflTransGen (fun _ _ => False) v v' → v = v' := by
    intro v v' hv
    induction hv with
    | refl => rfl
    | tail _ hf => exact hf.elim
  refine h.mono ?_ ?_
  · rintro v c a v' ⟨x, hx, he⟩
    rwa [halone _ _ hx]
  · rintro v c v' ⟨x, hx, hd⟩
    rwa [halone _ _ hx]

end RunpodJobrunner
