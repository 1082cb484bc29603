import Tortuga.BuoyEstimation
import Mathlib.Algebra.Order.Ring.Rat
import Mathlib.Data.List.Infix
import Mathlib.Data.List.Induction

/-!
The weights of the particles of `ParticleBuoyEstimationModule`, over any measurements.
-/
namespace Tortuga.ParticleWeights
open Tortuga.Geometry Tortuga.Cameras Tortuga.BuoyEstimation ParticleBuoyEstimationModule
open Tortuga.Thrusters (Vector3)

/-- An event, and what the estimated state is by then. -/
abbrev Step (K : Type) := EstimatedState K × Event K

@[simp] theorem total_single {K : Type} [Field K] (q : Particle3D K) : total [q] = q.likelihood := by
  simp [total]

section
variable {K : Type} [Field K] [DecidableEq K]
  {likelihood3D : Vector3 K → Matrix3 K → Vector3 K → K} {samples : Vector3 K → Matrix3 K → ℕ → Vector3 K}
  {module : ParticleBuoyEstimationModule K} {p : Particles K} {s : EstimatedState K} {q : Particle3D K} {step : Step K}
  {steps : List (Step K)} {buoyEvent : BuoyEvent K} {particles : List (Particle3D K)}

/-- The particles after an event. -/
def next (likelihood3D : Vector3 K → Matrix3 K → Vector3 K → K) (samples : Vector3 K → Matrix3 K → ℕ → Vector3 K)
    (module : ParticleBuoyEstimationModule K) (p : Particles K) (step : Step K) : Except Failure (Particles K) :=
  Prod.fst <$> update likelihood3D samples module p step.1 step.2

/-- A new module after the events. -/
def run (likelihood3D : Vector3 K → Matrix3 K → Vector3 K → K) (samples : Vector3 K → Matrix3 K → ℕ → Vector3 K)
    (module : ParticleBuoyEstimationModule K) (steps : List (Step K)) : Except Failure (Particles K) :=
  steps.foldlM (next likelihood3D samples module) ⟨false, []⟩

/-- A particle that is beside the camera has no place in the image. -/
def Beside (module : ParticleBuoyEstimationModule K) (s : EstimatedState K) (q : Particle3D K) : Prop :=
  (module.intrinsicParameters.apply (s.inCamera q.coords_w)).z = 0

/-- The events that the module is fit for: a measurement only where there is one particle, and no particle beside the camera. -/
def Fits (module : ParticleBuoyEstimationModule K) (p : Particles K) : Step K → Prop
  | (_, .other) => True
  | (s, .buoy buoyEvent) => buoyEvent.touchingEdge = true ∨
      module.numParticles = 1 ∧ (p.initialized = true → ∀ q ∈ p.particles, ¬ Beside module s q)

/-! ### One particle -/

theorem normalizeWeights_zero (zero : total particles = 0) : normalizeWeights particles = .error .likelihoodsSumToZero := if_pos zero

theorem normalizeWeights_single (nonzero : q.likelihood ≠ 0) : normalizeWeights [q] = .ok [{ q with likelihood := 1 }] := by
  rw [normalizeWeights, total_single, if_neg nonzero, List.mapM_cons, List.mapM_nil, divide_of_ne nonzero, div_self nonzero]
  rfl

theorem getBestEstimate_single (nonzero : q.likelihood ≠ 0) : ∃ v, getBestEstimate [q] = .ok v := by
  rw [getBestEstimate, total_single, if_neg nonzero, divide_of_ne nonzero, divide_of_ne nonzero, divide_of_ne nonzero]
  exact ⟨_, rfl⟩

theorem getCovariance_single (v : Vector3 K) : ∃ m, getCovariance [v] = .ok m := by
  have one : (([v].length : ℕ) : K) ≠ 0 := by
    simp
  rw [getCovariance, if_neg one]
  exact ⟨_, rfl⟩

theorem weigh_beside (beside : Beside module s q) (measurement_i : Vector3 K) :
    weigh likelihood3D module s measurement_i q = .error .division := by
  rw [weigh, world2img_beside beside]
  rfl

theorem weigh_before (likelihood3D : Vector3 K → Matrix3 K → Vector3 K → K) (before : ¬ Beside module s q) (measurement_i : Vector3 K) :
    ∃ q', weigh likelihood3D module s measurement_i q = .ok q' := by
  obtain ⟨coords_i, projected⟩ := world2img_exists before
  rw [weigh, projected]
  exact ⟨_, rfl⟩

/-! ### One event -/

/-- There are no particles before the first measurement, and then one of all the weight. -/
def Invariant (module : ParticleBuoyEstimationModule K) (p : Particles K) : Prop :=
  p = ⟨false, []⟩ ∨ module.numParticles = 1 ∧ ∃ q, p = ⟨true, [q]⟩ ∧ q.likelihood = 1

/-- Two particles or more are drawn with the integer quotient as their weight, which is zero. -/
theorem initialization_many (many : 2 ≤ module.numParticles) (s : EstimatedState K) (measurement_i : Vector3 K) :
    initialization samples module ⟨false, []⟩ s measurement_i = .error .likelihoodsSumToZero := by
  have quotient : 1 / module.numParticles = 0 := Nat.div_eq_of_lt many
  have zero (draw : ℕ → Vector3 K) : total ([] ++ (List.range module.numParticles).map fun i => module.newParticle s (draw i)) = 0 := by
    refine List.sum_eq_zero fun weight member => ?_
    simp only [List.nil_append, List.map_map, List.mem_map] at member
    obtain ⟨i, -, rfl⟩ := member
    simp [newParticle, quotient]
  rw [initialization, normalizeWeights_zero (zero _)]
  rfl

theorem initialization_one (samples : Vector3 K → Matrix3 K → ℕ → Vector3 K) (one : module.numParticles = 1) (s : EstimatedState K)
    (measurement_i : Vector3 K) :
    ∃ q, q.likelihood = 1 ∧ initialization samples module ⟨false, []⟩ s measurement_i = .ok (⟨true, [q]⟩, s, []) := by
  have nonzero (draw : Vector3 K) : (module.newParticle s draw).likelihood ≠ 0 := by
    simp [newParticle, one]
  have drawn (draw : ℕ → Vector3 K) : ([] ++ (List.range module.numParticles).map fun i => module.newParticle s (draw i)) =
      [module.newParticle s (draw 0)] := by
    rw [one]
    rfl
  rw [initialization, drawn, normalizeWeights_single (nonzero _)]
  exact ⟨_, rfl, rfl⟩

theorem algorithm_beside (beside : Beside module s q) (measurement_i : Vector3 K) :
    algorithm likelihood3D module ⟨true, [q]⟩ s measurement_i = .error .division := by
  rw [algorithm, List.mapM_cons, weigh_beside beside]
  rfl

/-- The particle keeps all the weight, or loses it and is given up. -/
theorem algorithm_before (likelihood3D : Vector3 K → Matrix3 K → Vector3 K → K) (before : ¬ Beside module s q)
    (measurement_i : Vector3 K) :
    ∃ p s' events, algorithm likelihood3D module ⟨true, [q]⟩ s measurement_i = .ok (p, s', events) ∧
      (p = ⟨false, []⟩ ∨ ∃ q', p = ⟨true, [q']⟩ ∧ q'.likelihood = 1) := by
  obtain ⟨q', weighed⟩ := weigh_before likelihood3D before measurement_i
  have all : [q].mapM (weigh likelihood3D module s measurement_i) = .ok [q'] := by
    rw [List.mapM_cons, List.mapM_nil, weighed]
    rfl
  simp only [algorithm, all, bind, Except.bind, total_single]
  by_cases zero : q'.likelihood = 0
  · rw [if_pos zero]
    exact ⟨_, _, _, rfl, .inl rfl⟩
  · have one : ({ q' with likelihood := 1 } : Particle3D K).likelihood ≠ 0 := one_ne_zero
    obtain ⟨v, best⟩ := getBestEstimate_single one
    obtain ⟨m, spread⟩ := getCovariance_single q'.coords_w
    simp only [if_neg zero, normalizeWeights_single zero, best, List.map_cons, List.map_nil, spread]
    exact ⟨_, _, _, rfl, .inr ⟨_, rfl, rfl⟩⟩

/-- An event that the module is fit for. -/
theorem next_fits (invariant : Invariant module p) (fits : Fits module p step) :
    ∃ p', next likelihood3D samples module p step = .ok p' ∧ Invariant module p' := by
  obtain ⟨s, event⟩ := step
  cases event with
  | other => exact ⟨p, rfl, invariant⟩
  | buoy buoyEvent =>
    by_cases edge : buoyEvent.touchingEdge = true
    · refine ⟨p, ?_, invariant⟩
      rw [next, update, if_pos edge]
      rfl
    · obtain ⟨one, before⟩ := fits.resolve_left edge
      rcases invariant with rfl | ⟨-, q, rfl, -⟩
      · obtain ⟨q, weight, drawn⟩ := initialization_one samples one s
          ⟨buoyEvent.x * module.camWidth, buoyEvent.y * module.camHeight, buoyEvent.range⟩
        refine ⟨⟨true, [q]⟩, ?_, .inr ⟨one, q, rfl, weight⟩⟩
        rw [next, update, if_neg edge, if_pos Bool.false_ne_true, drawn]
        rfl
      · obtain ⟨p', s', events, done, kept⟩ := algorithm_before likelihood3D (before rfl q List.mem_cons_self)
          ⟨buoyEvent.x * module.camWidth, buoyEvent.y * module.camHeight, buoyEvent.range⟩
        refine ⟨p', ?_, kept.imp_right fun weight => ⟨one, weight⟩⟩
        rw [next, update, if_neg edge, if_neg (not_not.mpr rfl), done]
        rfl

/-- Any other event fails. -/
theorem next_fails (some : 1 ≤ module.numParticles) (invariant : Invariant module p) (misfit : ¬ Fits module p step) :
    ∃ failure, next likelihood3D samples module p step = .error failure := by
  obtain ⟨s, event⟩ := step
  cases event with
  | other => exact absurd trivial misfit
  | buoy buoyEvent =>
    obtain ⟨inside, unfit⟩ := not_or.mp misfit
    rcases invariant with rfl | ⟨one, q, rfl, -⟩
    · have many : 2 ≤ module.numParticles := by
        have two : module.numParticles ≠ 1 := fun one => unfit ⟨one, fun initialized => Bool.noConfusion initialized⟩
        omega
      refine ⟨.likelihoodsSumToZero, ?_⟩
      rw [next, update, if_neg inside, if_pos Bool.false_ne_true, initialization_many many]
      rfl
    · have beside : Beside module s q := by
        by_contra before
        refine unfit ⟨one, fun _ q' member => ?_⟩
        rwa [List.mem_singleton.mp member]
      refine ⟨.division, ?_⟩
      rw [next, update, if_neg inside, if_neg (not_not.mpr rfl), algorithm_beside beside]
      rfl

/-! ### Any events -/

/-- The module is fit for each event. -/
def Fitting (likelihood3D : Vector3 K → Matrix3 K → Vector3 K → K) (samples : Vector3 K → Matrix3 K → ℕ → Vector3 K)
    (module : ParticleBuoyEstimationModule K) (steps : List (Step K)) : Prop :=
  ∀ earlier step, earlier ++ [step] <+: steps → ∀ p, run likelihood3D samples module earlier = .ok p → Fits module p step

theorem run_snoc (earlier : List (Step K)) (step : Step K) : run likelihood3D samples module (earlier ++ [step]) =
    run likelihood3D samples module earlier >>= fun p => next likelihood3D samples module p step := by
  rw [run, List.foldlM_append, run]
  simp

theorem fitting_nil : Fitting likelihood3D samples module [] := by
  intro earlier step inside
  exact absurd (List.prefix_nil.mp inside) (by simp)

theorem fitting_snoc {steps : List (Step K)} {last : Step K} : Fitting likelihood3D samples module (steps ++ [last]) ↔
    Fitting likelihood3D samples module steps ∧ ∀ p, run likelihood3D samples module steps = .ok p → Fits module p last := by
  constructor
  · intro fitting
    exact ⟨fun earlier step inside => fitting earlier step (inside.trans (List.prefix_append ..)),
      fitting steps last (List.prefix_refl _)⟩
  · intro ⟨before, now⟩ earlier step inside
    rcases List.prefix_concat_iff.mp inside with all | sooner
    · obtain ⟨rfl, same⟩ := List.append_inj' all rfl
      cases same
      exact now
    · exact before earlier step sooner

/-- As long as the module is fit for the events, it has no particles or one. -/
theorem run_fits (steps : List (Step K)) (fitting : Fitting likelihood3D samples module steps) :
    ∃ p, run likelihood3D samples module steps = .ok p ∧ Invariant module p := by
  induction steps using List.reverseRecOn with
  | nil => exact ⟨_, rfl, .inl rfl⟩
  | append_singleton steps step ih =>
    obtain ⟨before, now⟩ := fitting_snoc.mp fitting
    obtain ⟨p, done, invariant⟩ := ih before
    obtain ⟨p', stepped, kept⟩ := next_fits invariant (now p done)
    refine ⟨p', ?_, kept⟩
    rw [run_snoc, done]
    exact stepped

end

section
variable {K : Type} [Field K] [LinearOrder K] [IsStrictOrderedRing K]
  {likelihood3D : Vector3 K → Matrix3 K → Vector3 K → K} {samples : Vector3 K → Matrix3 K → ℕ → Vector3 K}
  {module : ParticleBuoyEstimationModule K} {p : Particles K} {steps : List (Step K)} {step : Step K}

/-- The weights are a distribution over the configured number of particles. -/
structure Distribution (module : ParticleBuoyEstimationModule K) (p : Particles K) : Prop where
  nonneg : ∀ q ∈ p.particles, 0 ≤ q.likelihood
  total : total p.particles = 1
  count : p.particles.length = module.numParticles

/-- No event fails, and the weights are a distribution whenever the module is initialised. -/
def Safe (likelihood3D : Vector3 K → Matrix3 K → Vector3 K → K) (samples : Vector3 K → Matrix3 K → ℕ → Vector3 K)
    (module : ParticleBuoyEstimationModule K) (steps : List (Step K)) : Prop :=
  ∀ earlier, earlier <+: steps → ∃ p, run likelihood3D samples module earlier = .ok p ∧ (p.initialized = true → Distribution module p)

theorem Invariant.distribution (invariant : Invariant module p) (initialized : p.initialized = true) : Distribution module p := by
  rcases invariant with rfl | ⟨one, q, rfl, weight⟩
  · cases initialized
  · constructor
    · intro q' member
      rw [List.mem_singleton.mp member, weight]
      exact zero_le_one
    · rw [total_single, weight]
    · exact one.symm

/-- The weights are a distribution, and nothing fails, over just those events that the module is fit for: a measurement only with one
    particle, and with the particle not beside the camera. -/
theorem weights_distribution (some : 1 ≤ module.numParticles) :
    Safe likelihood3D samples module steps ↔ Fitting likelihood3D samples module steps := by
  constructor
  · intro safe
    induction steps using List.reverseRecOn with
    | nil => exact fitting_nil
    | append_singleton steps last ih =>
      have before := ih fun earlier inside => safe earlier (inside.trans (List.prefix_append ..))
      obtain ⟨p, done, invariant⟩ := run_fits steps before
      obtain ⟨p', ran, -⟩ := safe (steps ++ [last]) (List.prefix_refl _)
      refine fitting_snoc.mpr ⟨before, fun q reached => ?_⟩
      cases done.symm.trans reached
      by_contra misfit
      obtain ⟨failure, failed⟩ := next_fails some invariant misfit
      rw [run_snoc, done] at ran
      cases failed.symm.trans ran
  · intro fitting earlier inside
    obtain ⟨p, done, invariant⟩ := run_fits earlier fun sooner step within => fitting sooner step (within.trans inside)
    exact ⟨p, done, invariant.distribution⟩

end

/-- A module with particles that are all as the measurement, and with the same likelihood everywhere. -/
def plain (numParticles : ℕ) : ParticleBuoyEstimationModule ℚ := .new (fun v => v) wide .redBuoy (1, 1) numParticles

theorem fitting_first (numParticles : ℕ) (one : numParticles = 1) (buoyEvent : BuoyEvent ℚ) :
    Fitting (fun _ _ _ => 1) (fun v _ _ => v) (plain numParticles) [(atOrigin, .buoy buoyEvent)] := by
  refine fitting_snoc.mpr (?_ : Fitting _ _ _ [] ∧ _)
  refine ⟨fitting_nil, fun p reached => ?_⟩
  cases reached
  exact .inr ⟨one, fun initialized => Bool.noConfusion initialized⟩

theorem weights_distribution_first :
    Safe (fun _ _ _ => 1) (fun v _ _ => v) (plain 1) [(atOrigin, .buoy ⟨0, 0, 5, .red, false⟩)] :=
  (weights_distribution (le_refl 1)).mpr (fitting_first 1 rfl _)

/-- With the default number of particles the first measurement fails. -/
theorem weights_wrong :
    run (fun _ _ _ => 1) (fun v _ _ => v) (plain 200) [(atOrigin, .buoy ⟨0, 0, 5, .red, false⟩)] = .error .likelihoodsSumToZero ∧
    ¬ Safe (fun _ _ _ => 1) (fun v _ _ => v) (plain 200) [(atOrigin, .buoy ⟨0, 0, 5, .red, false⟩)] := by
  have many : 2 ≤ (plain 200).numParticles := by
    decide
  have failed : run (fun _ _ _ => 1) (fun v _ _ => v) (plain 200) [(atOrigin, .buoy ⟨0, 0, 5, .red, false⟩)] =
      .error .likelihoodsSumToZero := by
    rw [run, List.foldlM_cons, next, update, if_neg Bool.false_ne_true, if_pos Bool.false_ne_true, initialization_many many]
    rfl
  refine ⟨failed, fun safe => ?_⟩
  obtain ⟨p, done, -⟩ := safe _ (List.prefix_refl _)
  cases failed.symm.trans done

end Tortuga.ParticleWeights
