import Tortuga.Programs

/-!
Two programs in lockstep: each request of one is a request of the other, and what a
monitor demands holds of both. Programs in lockstep show the same traces.
-/
namespace Tortuga.Lockstep
open Tortuga.Programs Tortuga.Programs.Prog

variable {Op : Type} {Ans : Op → Type} {Loop Ext S : Type} {α β γ δ : Type}

/-- `J` is an invariant of a loop that leaves the loop in states with `P`. -/
def Carries {σ τ : Type} (M : Monitor Op Ans Loop Ext S) (l : Loop) (body : σ → Prog Op Ans Loop (σ ⊕ τ))
    (P : τ → S → Prop) (J : σ → S → Prop) : Prop :=
  ∀ y u, J y u → ∀ v, M.Rely u v → M.allows v (.iter l) → M.demands v (.iter l) ∧
    wp M (body y) (fun r w => match r with
      | .inl z => J z w
      | .inr b => P b w) (M.next v (.iter l))

section
variable {σ τ : Type} {M : Monitor Op Ans Loop Ext S} {l : Loop} {body : σ → Prog Op Ans Loop (σ ⊕ τ)}
  {P : τ → S → Prop}

/-- The invariants of a loop together are one. -/
theorem carries_any : Carries M l body P (fun y u => ∃ J, Carries M l body P J ∧ J y u) := by
  rintro y u ⟨J, carries, inv⟩ v later allowed
  obtain ⟨demanded, rest⟩ := carries y u inv v later allowed
  refine ⟨demanded, wp_mono ?_ rest⟩
  rintro (z | b) w post
  · exact ⟨J, carries, post⟩
  · exact post

/-- What the surroundings make of an invariant is one. -/
theorem Carries.rely {J : σ → S → Prop} (carries : Carries M l body P J) :
    Carries M l body P (fun y u => ∃ u₀, J y u₀ ∧ M.Rely u₀ u) := by
  rintro y u ⟨u₀, inv, before⟩ v later allowed
  obtain ⟨demanded, rest⟩ := carries y u₀ inv v (before.trans later) allowed
  refine ⟨demanded, wp_mono ?_ rest⟩
  rintro (z | b) w post
  · exact ⟨w, post, .refl⟩
  · exact post

end

/-- Two programs that make the same requests, meet the demands of the monitor and return
    results with `Q`. A loop is the same loop on both sides. -/
inductive Paired (M : Monitor Op Ans Loop Ext S) (Q : α → β → S → Prop) :
    Prog Op Ans Loop α → Prog Op Ans Loop β → S → Prop where
  | ret {a : α} {b : β} {s : S} (post : ∀ t, M.Rely s t → Q a b t) : Paired M Q (.ret a) (.ret b) s
  | fault {s : S} (allowed : ∀ t, M.Rely s t → M.faults t) : Paired M Q .fault .fault s
  | ask {o : Op} {k : Ans o → Prog Op Ans Loop α} {k' : Ans o → Prog Op Ans Loop β} {s : S}
      (demanded : ∀ t, M.Rely s t → ∀ a, M.allows t (.call o a) → M.demands t (.call o a))
      (rest : ∀ t, M.Rely s t → ∀ a, M.allows t (.call o a) → Paired M Q (k a) (k' a) (M.next t (.call o a))) :
      Paired M Q (.ask o k) (.ask o k') s
  | loop {σ τ : Type} {l : Loop} {x : σ} {body : σ → Prog Op Ans Loop (σ ⊕ τ)} {k : τ → Prog Op Ans Loop α}
      {k' : τ → Prog Op Ans Loop β} {s : S} {P : τ → S → Prop} (J : σ → S → Prop)
      (start : ∀ t, M.Rely s t → J x t)
      (carries : Carries M l body P J)
      (rest : ∀ b w, P b w → Paired M Q (k b) (k' b) w) : Paired M Q (.loop l x body k) (.loop l x body k') s

variable {M : Monitor Op Ans Loop Ext S} {Q : α → β → S → Prop} {p : Prog Op Ans Loop α} {q : Prog Op Ans Loop β}
  {s t : S}

namespace Paired

/-- A program is in lockstep with itself. -/
theorem diag {Q : α → S → Prop} (holds : wp M p Q s) : Paired M (fun a b t => a = b ∧ Q a t) p p s := by
  induction p generalizing s with
  | ret a => exact .ret (fun t rely => ⟨rfl, holds t rely⟩)
  | fault => exact .fault holds
  | ask o k ih =>
    exact .ask (fun t rely a allowed => (holds t rely a allowed).1)
      (fun t rely a allowed => ih a (holds t rely a allowed).2)
  | loop l x body k _ ih =>
    refine .loop (P := fun b w => wp M (k b) Q w) _ (fun t rely => ?_) carries_any (fun b w post => ih b post)
    obtain ⟨J, start, carries⟩ := holds t rely
    exact ⟨J, carries, start⟩

theorem mono {R : α → β → S → Prop} (weaker : ∀ a b t, Q a b t → R a b t) (paired : Paired M Q p q s) :
    Paired M R p q s := by
  induction paired with
  | ret post => exact .ret (fun t rely => weaker _ _ t (post t rely))
  | fault allowed => exact .fault allowed
  | ask demanded _ ih => exact .ask demanded ih
  | loop J start carries _ ih => exact .loop J start carries ih

theorem bind {R : α → β → S → Prop} {Q : γ → δ → S → Prop} {f : α → Prog Op Ans Loop γ} {g : β → Prog Op Ans Loop δ}
    (first : Paired M R p q s) (rest : ∀ a b t, R a b t → Paired M Q (f a) (g b) t) :
    Paired M Q (p.bind f) (q.bind g) s := by
  induction first with
  | ret post => exact rest _ _ _ (post _ .refl)
  | fault allowed => exact .fault allowed
  | ask demanded _ ih => exact .ask demanded ih
  | loop J start carries _ ih => exact .loop J start carries ih

theorem stable (rely : M.Rely s t) (paired : Paired M Q p q s) : Paired M Q p q t := by
  cases paired with
  | ret post => exact .ret (fun u later => post u (rely.trans later))
  | fault allowed => exact .fault (fun u later => allowed u (rely.trans later))
  | ask demanded rest =>
    exact .ask (fun u later => demanded u (rely.trans later)) (fun u later => rest u (rely.trans later))
  | loop J start carries rest => exact .loop J (fun u later => start u (rely.trans later)) carries rest

/-- The first of two programs in lockstep meets the demands. -/
theorem wp_left (paired : Paired M Q p q s) : wp M p (fun a t => ∃ b, Q a b t) s := by
  induction paired with
  | ret post => exact fun t rely => ⟨_, post t rely⟩
  | fault allowed => exact allowed
  | ask demanded _ ih => exact fun t rely a allowed => ⟨demanded t rely a allowed, ih t rely a allowed⟩
  | loop J start carries _ ih =>
    intro t rely
    refine ⟨J, start t rely, fun y u inv v later allowed => ?_⟩
    obtain ⟨demanded, rest⟩ := carries y u inv v later allowed
    refine ⟨demanded, wp_mono ?_ rest⟩
    rintro (z | b) w post
    · exact post
    · exact ih b w post

/-- A step of one program is a step of the other. -/
theorem step {p' : Prog Op Ans Loop α} {e : Event Op Ans Loop Ext} (paired : Paired M Q p q s) (step : Step p e p')
    (allowed : M.allows s e) : ∃ q', Step q e q' ∧ Paired M Q p' q' (M.next s e) := by
  cases step with
  | ext p e => exact ⟨q, .ext q e, paired.stable (.single ⟨e, allowed, rfl⟩)⟩
  | ask o k a =>
    cases paired with
    | ask demanded rest => exact ⟨_, .ask o _ a, rest s .refl a allowed⟩
  | loop l x body k =>
    cases paired with
    | loop J start carries rest =>
      refine ⟨_, .loop l x body _, bind (diag (carries x s (start s .refl) s .refl allowed).2) ?_⟩
      rintro (z | b) _ w ⟨rfl, post⟩
      · exact .loop _ (fun t rely => ⟨w, post, rely⟩) carries.rely rest
      · exact rest b w post

/-- A run of one program is a run of the other, and what is left is in lockstep. -/
theorem run {p' : Prog Op Ans Loop α} {tr : List (Event Op Ans Loop Ext)} (paired : Paired M Q p q s)
    (run : Run p tr p') (allowed : M.Along M.allows s tr) :
    ∃ q', Run q tr q' ∧ Paired M Q p' q' (M.after s tr) := by
  induction run generalizing q s with
  | done p => exact ⟨q, .done q, paired⟩
  | step first _ ih =>
    obtain ⟨q₁, moved, next⟩ := paired.step first allowed.1
    obtain ⟨q', run, final⟩ := ih next allowed.2
    exact ⟨q', .step moved run, final⟩

end Paired

/-! ### Programs that show the same -/

/-- The two programs show the same traces, and return or fault after the same ones. -/
def Same (Ext : Type) (p : Prog Op Ans Loop α) (q : Prog Op Ans Loop β) : Prop :=
  ∀ tr : List (Event Op Ans Loop Ext), ((∃ p', Run p tr p') ↔ ∃ q', Run q tr q') ∧
    ((∃ a, Run p tr (.ret a)) ↔ ∃ b, Run q tr (.ret b)) ∧ (Run p tr .fault ↔ Run q tr .fault)

/-- What a program shows, a program in lockstep with it shows. -/
theorem Paired.shows (all : ∀ s e, M.allows s e) (paired : Paired M Q p q s) (tr : List (Event Op Ans Loop Ext)) :
    ((∃ p', Run p tr p') → ∃ q', Run q tr q') ∧ ((∃ a, Run p tr (.ret a)) → ∃ b, Run q tr (.ret b)) ∧
      (Run p tr .fault → Run q tr .fault) := by
  refine ⟨?_, ?_, ?_⟩
  · rintro ⟨p', run⟩
    obtain ⟨q', moved, -⟩ := paired.run run (M.along_of_all all s tr)
    exact ⟨q', moved⟩
  · rintro ⟨a, run⟩
    obtain ⟨q', moved, final⟩ := paired.run run (M.along_of_all all s tr)
    cases final with
    | ret post => exact ⟨_, moved⟩
  · intro run
    obtain ⟨q', moved, final⟩ := paired.run run (M.along_of_all all s tr)
    cases final with
    | fault allowed => exact moved

/-- Programs in lockstep show the same, when the monitors assume nothing. -/
theorem Paired.same {N : Monitor Op Ans Loop Ext S} {R : β → α → S → Prop} {u : S} (all : ∀ s e, M.allows s e)
    (all' : ∀ s e, N.allows s e) (there : Paired M Q p q s) (back : Paired N R q p u) : Same Ext p q := by
  intro tr
  obtain ⟨any, ends, faults⟩ := there.shows all tr
  obtain ⟨any', ends', faults'⟩ := back.shows all' tr
  exact ⟨⟨any, any'⟩, ⟨ends, ends'⟩, ⟨faults, faults'⟩⟩

/-! ### Exactly where a program faults -/

/-- When the demands are that `F` does not hold yet, a program is at a fault if and only
    if `F` holds. -/
theorem fault_iff [inhabited : ∀ o, Nonempty (Ans o)] {F : S → Prop} {Q : α → S → Prop} (all : ∀ s e, M.allows s e)
    (demands : ∀ s e, M.demands s e → ¬ F s) (faults : ∀ s, M.faults s → F s) (post : ∀ a s, Q a s → ¬ F s)
    (holds : wp M p Q s) : p = .fault ↔ F s := by
  cases p with
  | ret a => exact ⟨nofun, fun found => absurd found (post a s (holds s .refl))⟩
  | fault => exact ⟨fun _ => faults s (holds s .refl), fun _ => rfl⟩
  | ask o k =>
    obtain ⟨a⟩ := inhabited o
    exact ⟨nofun, fun found => absurd found (demands s _ (holds s .refl a (all s _)).1)⟩
  | loop l x body k => exact ⟨nofun, fun found => absurd found (demands s _ (wp_unroll holds (all s _)).1)⟩

end Tortuga.Lockstep
